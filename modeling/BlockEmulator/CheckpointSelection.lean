import BlockEmulator.Fallible
import BlockEmulator.FloatValue
import Mathlib.Algebra.Order.Floor.Ring
import Mathlib.Data.String.Basic
import Mathlib.Tactic.Linarith

/-!
# The selection of a checkpoint (`select_pareto_checkpoint.py`)

Of the candidates of a manifest those are strict that have enough active shards and keep
below the cap on the hotspot; where none is, a small deficit of active shards is allowed,
but the cap stays. The least key of the tier is selected.

* `keyOrder_entry` — the entries of sort keys are partially ordered.
* `select_candidate` — **when the selection does what it should**: its tier has a least key.
* `selectsRightly_of_numbers` — as it has where every metric is a number or infinite.
* `nan_first` — with a cross ratio that is not a number, the order of the candidates decides.
-/

namespace BlockEmulator

open Fallible KeyedMinimum

/-! ## Sort keys -/

/-- An entry of a sort key. -/
inductive KeyEntry where
  /-- a `float` -/
  | float (x : FloatValue)
  /-- an `int` -/
  | int (n : ℤ)
  /-- a `str` -/
  | str (text : String)
  deriving DecidableEq

/-- `a is b or a == b`. -/
def KeyEntry.same : KeyEntry → KeyEntry → Bool
  | float a, float b => a.same b
  | int a, int b => a = b
  | str a, str b => a = b
  | _, _ => false

/-- `a < b`, for entries of one kind. -/
def KeyEntry.lt : KeyEntry → KeyEntry → Bool
  | float a, float b => a.lt b
  | int a, int b => a < b
  | str a, str b => a < b
  | _, _ => false

/-- **Keys** are partially ordered, entry by entry. -/
theorem keyOrder_entry : KeyOrder KeyEntry.same KeyEntry.lt where
  symm := by
    intro a b h
    cases a <;> cases b <;> simp_all [KeyEntry.same, FloatValue.keyOrder.symm]
  same_trans := by
    intro a b c hab hbc
    cases a <;> cases b <;> cases c <;> simp_all [KeyEntry.same]
    exact FloatValue.keyOrder.same_trans _ _ _ hab hbc
  irrefl := by
    intro a
    cases a with
    | float x => exact FloatValue.keyOrder.irrefl x
    | int n => exact decide_eq_false (lt_irrefl n)
    | str text => exact decide_eq_false (lt_irrefl text)
  lt_trans := by
    intro a b c hab hbc
    -- entries of two kinds are not below one another
    cases a <;> cases b <;> first | cases hab | cases c <;> first | cases hbc | skip
    · exact FloatValue.keyOrder.lt_trans _ _ _ hab hbc
    · exact decide_eq_true ((of_decide_eq_true hab).trans (of_decide_eq_true hbc))
    · exact decide_eq_true ((of_decide_eq_true hab).trans (of_decide_eq_true hbc))
  same_lt := by
    intro a b c hab hbc
    cases a <;> cases b <;> cases c <;> simp_all [KeyEntry.same, KeyEntry.lt]
    exact FloatValue.keyOrder.same_lt _ _ _ hab hbc
  lt_same := by
    intro a b c hab hbc
    cases a <;> cases b <;> cases c <;> simp_all [KeyEntry.same, KeyEntry.lt]
    exact FloatValue.keyOrder.lt_same _ _ _ hab hbc

/-! ## Candidates -/

/-- The value at a key of a dictionary, as far as it is read. -/
inductive JsonCell (α : Type) where
  /-- the key is not there -/
  | absent
  /-- the value is none that can be read, such as `null` -/
  | refused
  /-- what `float` or `int` makes of the value -/
  | value (x : α)
  deriving DecidableEq

/-- `float(d.get(key, default))`; `none` is an exception. -/
def JsonCell.getOr {α : Type} (default : α) : JsonCell α → Option α
  | absent => some default
  | refused => none
  | value x => some x

/-- `float(d[key])`. -/
def JsonCell.get {α : Type} : JsonCell α → Option α
  | value x => some x
  | _ => none

/-- An entry of `pareto_frontier`, as far as the selection reads it. -/
structure CheckpointCandidate where
  /-- `checkpoint_path`; empty where it is missing -/
  checkpointPath : String
  /-- `active_shards_mean` -/
  activeShardsMean : JsonCell FloatValue
  /-- `stage_max_load_share` -/
  stageMaxLoadShare : JsonCell FloatValue
  /-- `cross_ratio` -/
  crossRatio : JsonCell FloatValue
  /-- `validation_score` -/
  validationScore : JsonCell FloatValue
  /-- `epoch` -/
  epoch : JsonCell ℤ
  /-- `event`, as `str` writes it; empty where it is missing -/
  event : String
  deriving DecidableEq

namespace CheckpointCandidate

variable (c : CheckpointCandidate)

/-- `float(candidate.get("active_shards_mean", 0.0))`. -/
def active : Option FloatValue := c.activeShardsMean.getOr (.num 0)

/-- `float(candidate.get("stage_max_load_share", 1.0))`. -/
def stage : Option FloatValue := c.stageMaxLoadShare.getOr (.num 1)

/-- `float(candidate.get("cross_ratio", 1.0))`. -/
def cross : Option FloatValue := c.crossRatio.getOr (.num 1)

end CheckpointCandidate

/-- The manifest. -/
structure CheckpointManifest where
  /-- whether `mechanism_version` is `"v3"` -/
  v3 : Bool
  /-- `pareto_frontier`, empty where it is no list; `none` is an entry that is no dictionary -/
  paretoFrontier : List (Option CheckpointCandidate)

/-- `pareto_candidates`. -/
def paretoCandidates (manifest : CheckpointManifest) : List CheckpointCandidate :=
  (manifest.paretoFrontier.filterMap id).filter fun c => c.checkpointPath ≠ ""

/-- The thresholds. -/
structure SelectionThresholds where
  /-- `min_active_shards` -/
  minActiveShards : FloatValue
  /-- `max_stage_hotspot` -/
  maxStageHotspot : FloatValue
  /-- `max_active_deficit_ratio` -/
  maxActiveDeficitRatio : FloatValue

section

variable (t : SelectionThresholds) (c : CheckpointCandidate)

/-- `active_deficit_ratio`. -/
def activeDeficitRatio : Option FloatValue :=
  c.active.map fun active => ((t.minActiveShards.sub active).div t.minActiveShards).max0

/-- The test of `eligible_candidates`; the cap is not looked at when there are too few active
shards. -/
def isEligible : Option Bool :=
  c.active.bind fun active =>
    if t.minActiveShards.le active then c.stage.map fun stage => stage.le t.maxStageHotspot
    else some false

/-- The test of `fallback_candidates`: the cap first. -/
def isFallback : Option Bool :=
  c.stage.bind fun stage =>
    if stage.le t.maxStageHotspot then
      (activeDeficitRatio t c).map fun ratio => ratio.le t.maxActiveDeficitRatio
    else some false

/-- `strict_sort_key`. -/
def strictSortKey : Option (List KeyEntry) :=
  c.cross.bind fun cross =>
  c.stage.bind fun stage =>
  c.active.bind fun active =>
  (c.epoch.getOr 0).map fun epoch =>
    [.float cross, .float stage, .float active.neg, .int epoch, .str c.event]

/-- `fallback_sort_key`. -/
def fallbackSortKey : Option (List KeyEntry) :=
  (activeDeficitRatio t c).bind fun ratio =>
  c.cross.bind fun cross =>
  c.stage.bind fun stage =>
  (c.epoch.getOr 0).map fun epoch =>
    [.float ratio, .float cross, .float stage, .int epoch, .str c.event]

end

/-- The tiers. -/
inductive SelectionTier where
  /-- `"strict"` -/
  | strict
  /-- `"active_tolerance"` -/
  | activeTolerance
  deriving DecidableEq

/-- The key of a tier; the third version ranks by the score first. A tuple in a tuple is
compared like the longer one. -/
def sortKey (v3 : Bool) (t : SelectionThresholds) (tier : SelectionTier)
    (c : CheckpointCandidate) : Option (List KeyEntry) :=
  match tier, v3 with
  | .strict, false => strictSortKey c
  | .strict, true =>
    c.validationScore.get.bind fun score =>
      (strictSortKey c).map fun key => .float score.neg :: key
  | .activeTolerance, false => fallbackSortKey t c
  | .activeTolerance, true =>
    (activeDeficitRatio t c).bind fun ratio =>
    c.validationScore.get.bind fun score =>
      (strictSortKey c).map fun key => .float ratio :: .float score.neg :: key

/-! ## The selection -/

/-- The exceptions. -/
inductive SelectionError where
  /-- a `ValueError` about a threshold -/
  | badThreshold (text : String)
  /-- a value that cannot be read: a `TypeError`, or a `KeyError` -/
  | unreadable
  /-- the `RuntimeError`: no candidate satisfies the guardrails or the fallback -/
  | noneSatisfies
  deriving DecidableEq

/-- `constraint_audit`. -/
structure ConstraintAudit where
  /-- `active_shards_mean` -/
  activeShardsMean : FloatValue
  /-- `stage_max_load_share` -/
  stageMaxLoadShare : FloatValue
  /-- `active_shards_deficit` -/
  activeShardsDeficit : FloatValue
  /-- `active_deficit_ratio` -/
  activeDeficitRatio : FloatValue
  /-- `stage_hotspot_excess` -/
  stageHotspotExcess : FloatValue
  /-- `strict_constraints_satisfied` -/
  strictConstraintsSatisfied : Bool
  /-- `fallback_constraints_satisfied` -/
  fallbackConstraintsSatisfied : Bool

/-- The result of `select_candidate_decision`. -/
structure SelectionDecision where
  /-- `selection_policy` -/
  selectionPolicy : String
  /-- `selection_tier` -/
  selectionTier : SelectionTier
  /-- `strict_feasible` -/
  strictFeasible : Bool
  /-- `constraint_audit` -/
  constraintAudit : ConstraintAudit
  /-- `selected` -/
  selected : CheckpointCandidate

/-- `SELECTION_POLICY_NAME`. -/
def selectionPolicyName : String := "hierarchical_constrained_pareto_v1"

/-- `min(candidates, key=key)`: the key of every candidate is computed. -/
def minByKey (key : CheckpointCandidate → Option (List KeyEntry))
    (candidates : List CheckpointCandidate) : Option CheckpointCandidate :=
  (candidates.mapM fun c => (key c).map fun k => (c, k)).bind fun keyed =>
    (minBy (fun a b => lexLt KeyEntry.same KeyEntry.lt a.2 b.2) keyed).map Prod.fst

section

variable (manifest : CheckpointManifest) (t : SelectionThresholds)

/-- The least candidate of a tier. -/
def pickFrom (tier : SelectionTier) (candidates : List CheckpointCandidate) :
    Except SelectionError (SelectionTier × CheckpointCandidate) :=
  match minByKey (sortKey manifest.v3 t tier) candidates with
  | some selected => .ok (tier, selected)
  | none => .error .unreadable

/-- The tier and the candidate that are selected. -/
def selectTier : Except SelectionError (SelectionTier × CheckpointCandidate) :=
  match keepM (isEligible t) (paretoCandidates manifest) with
  | none => .error .unreadable
  | some strictCandidates =>
    if strictCandidates ≠ [] then pickFrom manifest t .strict strictCandidates
    else
      match keepM (isFallback t) (paretoCandidates manifest) with
      | none => .error .unreadable
      | some relaxedCandidates =>
        if relaxedCandidates = [] then .error .noneSatisfies
        else pickFrom manifest t .activeTolerance relaxedCandidates

/-- The report on what was selected. -/
def auditOf (tier : SelectionTier) (selected : CheckpointCandidate) : Option SelectionDecision :=
  selected.active.bind fun activeShards =>
  selected.stage.bind fun stageHotspot =>
  (activeDeficitRatio t selected).map fun deficitRatio =>
    { selectionPolicy :=
        if manifest.v3 then "validation_score_with_stage_guardrails_v3" else selectionPolicyName
      selectionTier := tier
      strictFeasible := tier = .strict
      constraintAudit :=
        { activeShardsMean := activeShards
          stageMaxLoadShare := stageHotspot
          activeShardsDeficit := (t.minActiveShards.sub activeShards).max0
          activeDeficitRatio := deficitRatio
          stageHotspotExcess := (stageHotspot.sub t.maxStageHotspot).max0
          strictConstraintsSatisfied :=
            t.minActiveShards.le activeShards && stageHotspot.le t.maxStageHotspot
          fallbackConstraintsSatisfied :=
            stageHotspot.le t.maxStageHotspot && deficitRatio.le t.maxActiveDeficitRatio }
      selected := selected }

/-- `select_candidate_decision`. -/
def selectCandidateDecision : Except SelectionError SelectionDecision :=
  if t.minActiveShards.le (.num 0) then
    .error (.badThreshold "min_active_shards must be positive")
  else if ((FloatValue.num 0).le t.maxStageHotspot && t.maxStageHotspot.le (.num 1)) = false then
    .error (.badThreshold "max_stage_hotspot must be in [0, 1]")
  else if ((FloatValue.num 0).le t.maxActiveDeficitRatio &&
      t.maxActiveDeficitRatio.le (.num 1)) = false then
    .error (.badThreshold "max_active_deficit_ratio must be in [0, 1]")
  else
    match selectTier manifest t with
    | .error e => .error e
    | .ok (tier, selected) =>
      match auditOf manifest t tier selected with
      | some decision => .ok decision
      | none => .error .unreadable

end

/-- Thresholds that are accepted. -/
structure SelectionThresholds.Valid (t : SelectionThresholds) : Prop where
  /-- `min_active_shards` is not `<= 0.0` -/
  minActiveShards : t.minActiveShards.le (.num 0) = false
  /-- `max_stage_hotspot` is in `[0, 1]` -/
  maxStageHotspot :
    ((FloatValue.num 0).le t.maxStageHotspot && t.maxStageHotspot.le (.num 1)) = true
  /-- `max_active_deficit_ratio` is in `[0, 1]` -/
  maxActiveDeficitRatio :
    ((FloatValue.num 0).le t.maxActiveDeficitRatio && t.maxActiveDeficitRatio.le (.num 1)) = true

/-! ## What the selection does -/

section

variable (manifest : CheckpointManifest) (t : SelectionThresholds)

/-- The candidates of a tier. -/
def tierSet : SelectionTier → List CheckpointCandidate
  | .strict => (paretoCandidates manifest).filter fun c => isEligible t c = some true
  | .activeTolerance => (paretoCandidates manifest).filter fun c => isFallback t c = some true

/-- The tier from which is selected. -/
def tierOf : SelectionTier := if tierSet manifest t .strict = [] then .activeTolerance else .strict

/-- Whether one candidate is ranked before the other. -/
def ranksBefore (tier : SelectionTier) (a b : CheckpointCandidate) : Bool :=
  lexLt KeyEntry.same KeyEntry.lt ((sortKey manifest.v3 t tier a).getD [])
    ((sortKey manifest.v3 t tier b).getD [])

/-- Whether two candidates have the same key. -/
def ranksAlike (tier : SelectionTier) (a b : CheckpointCandidate) : Bool :=
  lexSame KeyEntry.same ((sortKey manifest.v3 t tier a).getD [])
    ((sortKey manifest.v3 t tier b).getD [])

/-- What the selection reads can be read. -/
structure SelectionReadable : Prop where
  /-- for the strict tier -/
  eligible : ∀ c ∈ paretoCandidates manifest, isEligible t c ≠ none
  /-- for the other one, where it is looked at -/
  fallback : tierSet manifest t .strict = [] →
    ∀ c ∈ paretoCandidates manifest, isFallback t c ≠ none
  /-- the keys of the tier -/
  keys : ∀ c ∈ tierSet manifest t (tierOf manifest t),
    sortKey manifest.v3 t (tierOf manifest t) c ≠ none

variable {manifest t}

theorem ranks_keyOrder (tier : SelectionTier) :
    KeyOrder (ranksAlike manifest t tier) (ranksBefore manifest t tier) :=
  keyOrder_entry.lex.comap fun c => (sortKey manifest.v3 t tier c).getD []

/-- The scan over the keys is one over the candidates. -/
theorem minByKey_eq {tier : SelectionTier} {l : List CheckpointCandidate}
    (h : ∀ c ∈ l, sortKey manifest.v3 t tier c ≠ none) :
    minByKey (sortKey manifest.v3 t tier) l = minBy (ranksBefore manifest t tier) l := by
  have hkeys : ∀ c ∈ l, (sortKey manifest.v3 t tier c).map (fun k => (c, k)) =
      some (c, (sortKey manifest.v3 t tier c).getD []) := by
    intro c hc
    obtain ⟨k, hk⟩ := Option.ne_none_iff_exists'.mp (h c hc)
    rw [hk]
    rfl
  rw [minByKey, mapM_some hkeys, Option.bind_some, minBy_map, Option.map_map]
  exact Option.map_id'

/-- A tier with a key that cannot be read. -/
theorem minByKey_eq_none {key : CheckpointCandidate → Option (List KeyEntry)}
    {l : List CheckpointCandidate} {c : CheckpointCandidate} (hc : c ∈ l) (h : key c = none) :
    minByKey key l = none := by
  have hpairs : (l.mapM fun c => (key c).map fun k => (c, k)) = none := by
    induction l with
    | nil => cases hc
    | cons x l ih =>
      rw [List.mapM_cons]
      rcases List.mem_cons.mp hc with rfl | hc
      · rw [h]
        rfl
      · rw [ih hc]
        cases (key x).map fun k => (x, k) <;> rfl
  rw [minByKey, hpairs]
  rfl

theorem pickFrom_ok {tier : SelectionTier} {l : List CheckpointCandidate}
    {r : SelectionTier × CheckpointCandidate} (h : pickFrom manifest t tier l = .ok r) :
    r.1 = tier ∧ (∀ c ∈ l, sortKey manifest.v3 t tier c ≠ none) ∧
      minBy (ranksBefore manifest t tier) l = some r.2 := by
  rw [pickFrom] at h
  split at h
  · rename_i selected hmin
    obtain rfl := Except.ok.inj h
    have hkeys : ∀ c ∈ l, sortKey manifest.v3 t tier c ≠ none := by
      intro c hc hnone
      rw [minByKey_eq_none hc hnone] at hmin
      cases hmin
    exact ⟨rfl, hkeys, minByKey_eq hkeys ▸ hmin⟩
  · cases h

/-- A pick is the minimum of the tier; all that was read could be read. -/
theorem selectTier_ok {r : SelectionTier × CheckpointCandidate}
    (h : selectTier manifest t = .ok r) :
    r.1 = tierOf manifest t ∧ SelectionReadable manifest t ∧
      minBy (ranksBefore manifest t r.1) (tierSet manifest t r.1) = some r.2 := by
  rw [selectTier] at h
  split at h
  · cases h
  · rename_i strict hstrict
    obtain ⟨heligible, rfl⟩ := keepM_eq_some_iff.mp hstrict
    change (if tierSet manifest t .strict ≠ [] then _ else _) = _ at h
    split at h
    · rename_i hne
      obtain ⟨htier, hkeys, hmin⟩ := pickFrom_ok h
      have htierOf : tierOf manifest t = .strict := if_neg hne
      rw [htier]
      refine ⟨htierOf.symm, ⟨heligible, fun hnil => absurd hnil hne, ?_⟩, hmin⟩
      rw [htierOf]
      exact hkeys
    · rename_i hnil
      split at h
      · cases h
      · rename_i relaxed hrelaxed
        obtain ⟨hfallback, rfl⟩ := keepM_eq_some_iff.mp hrelaxed
        split at h
        · cases h
        · obtain ⟨htier, hkeys, hmin⟩ := pickFrom_ok h
          have htierOf : tierOf manifest t = .activeTolerance := if_pos (not_not.mp hnil)
          rw [htier]
          refine ⟨htierOf.symm, ⟨heligible, fun _ => hfallback, ?_⟩, hmin⟩
          rw [htierOf]
          exact hkeys

/-- **Where all can be read**, something is selected unless the tier is empty. -/
theorem selectTier_of_readable (h : SelectionReadable manifest t)
    (hne : tierSet manifest t (tierOf manifest t) ≠ []) :
    ∃ c, selectTier manifest t = .ok (tierOf manifest t, c) := by
  have hpick : ∀ tier l, l ≠ [] → (∀ c ∈ l, sortKey manifest.v3 t tier c ≠ none) →
      ∃ c, pickFrom manifest t tier l = .ok (tier, c) := by
    intro tier l hl hkeys
    rw [pickFrom, minByKey_eq hkeys]
    cases l with
    | nil => exact absurd rfl hl
    | cons x l => exact ⟨_, rfl⟩
  have hstrict : keepM (isEligible t) (paretoCandidates manifest) =
      some (tierSet manifest t .strict) := keepM_eq_some_iff.mpr ⟨h.eligible, rfl⟩
  rw [selectTier, hstrict]
  by_cases hnil : tierSet manifest t .strict = []
  · have hrelaxed : keepM (isFallback t) (paretoCandidates manifest) =
        some (tierSet manifest t .activeTolerance) :=
      keepM_eq_some_iff.mpr ⟨h.fallback hnil, rfl⟩
    have htierOf : tierOf manifest t = .activeTolerance := if_pos hnil
    have hkeys := h.keys
    rw [htierOf] at hne hkeys ⊢
    simp only [hnil, ne_eq, not_true_eq_false, if_false, hrelaxed, if_neg hne]
    exact hpick _ _ hne hkeys
  · have htierOf : tierOf manifest t = .strict := if_neg hnil
    have hkeys := h.keys
    rw [htierOf] at hkeys ⊢
    simp only [ne_eq, hnil, not_false_eq_true, if_true]
    exact hpick _ _ hnil hkeys

/-- A candidate of a tier meets the cap, and its metrics can be read. -/
theorem of_mem_tierSet {tier : SelectionTier} {c : CheckpointCandidate}
    (hc : c ∈ tierSet manifest t tier) :
    ∃ active stage, c.active = some active ∧ c.stage = some stage ∧
      stage.le t.maxStageHotspot = true := by
  cases tier with
  | strict =>
    have htest := of_decide_eq_true (List.mem_filter.mp hc).2
    obtain ⟨active, hactive, htest⟩ := Option.bind_eq_some_iff.mp htest
    split at htest
    · obtain ⟨stage, hstage, hcap⟩ := Option.map_eq_some_iff.mp htest
      exact ⟨active, stage, hactive, hstage, hcap⟩
    · cases htest
  | activeTolerance =>
    have htest := of_decide_eq_true (List.mem_filter.mp hc).2
    obtain ⟨stage, hstage, htest⟩ := Option.bind_eq_some_iff.mp htest
    split at htest
    · rename_i hcap
      obtain ⟨ratio, hratio, -⟩ := Option.map_eq_some_iff.mp htest
      obtain ⟨active, hactive, -⟩ := Option.map_eq_some_iff.mp hratio
      exact ⟨active, stage, hactive, hstage, hcap⟩
    · cases htest

theorem selectCandidateDecision_eq (ht : t.Valid) :
    selectCandidateDecision manifest t =
      match selectTier manifest t with
      | .error e => .error e
      | .ok (tier, selected) =>
        match auditOf manifest t tier selected with
        | some decision => .ok decision
        | none => .error .unreadable := by
  rw [selectCandidateDecision, ht.minActiveShards, ht.maxStageHotspot, ht.maxActiveDeficitRatio]
  rfl

/-- With thresholds that are accepted, the decision is about what the tier selects. -/
theorem selectCandidateDecision_ok (ht : t.Valid) {d : SelectionDecision}
    (h : selectCandidateDecision manifest t = .ok d) :
    selectTier manifest t = .ok (d.selectionTier, d.selected) := by
  rw [selectCandidateDecision_eq ht] at h
  split at h
  · cases h
  · rename_i tier selected hselect
    split at h
    · rename_i decision haudit
      obtain rfl := Except.ok.inj h
      obtain ⟨active, -, haudit⟩ := Option.bind_eq_some_iff.mp haudit
      obtain ⟨stage, -, haudit⟩ := Option.bind_eq_some_iff.mp haudit
      obtain ⟨ratio, -, rfl⟩ := Option.map_eq_some_iff.mp haudit
      exact hselect
    · cases h

/-- **What is selected** is the minimum of its tier. -/
theorem selected_minimum (ht : t.Valid) {d : SelectionDecision}
    (h : selectCandidateDecision manifest t = .ok d) :
    d.selectionTier = tierOf manifest t ∧ SelectionReadable manifest t ∧
      minBy (ranksBefore manifest t (tierOf manifest t))
        (tierSet manifest t (tierOf manifest t)) = some d.selected := by
  obtain ⟨htier, hread, hmin⟩ := selectTier_ok (selectCandidateDecision_ok ht h)
  change d.selectionTier = _ at htier
  change minBy (ranksBefore manifest t d.selectionTier) (tierSet manifest t d.selectionTier) =
    some d.selected at hmin
  rw [htier] at hmin
  exact ⟨htier, hread, hmin⟩

/-- The report on what is selected never fails. -/
theorem selectCandidateDecision_of_readable (ht : t.Valid) (h : SelectionReadable manifest t)
    (hne : tierSet manifest t (tierOf manifest t) ≠ []) :
    ∃ d, selectCandidateDecision manifest t = .ok d := by
  obtain ⟨c, hc⟩ := selectTier_of_readable h hne
  obtain ⟨hmem, -⟩ := minBy_spec (ranks_keyOrder _) (selectTier_ok hc).2.2
  obtain ⟨active, stage, hactive, hstage, -⟩ := of_mem_tierSet hmem
  rw [selectCandidateDecision_eq ht, hc]
  simp only [auditOf, activeDeficitRatio, hactive, hstage, Option.bind_some, Option.map_some]
  exact ⟨_, rfl⟩

/-! ## What it should do -/

variable (manifest t)

/-- The manifest with its candidates in another order. -/
def CheckpointManifest.reorder (manifest : CheckpointManifest)
    (frontier : List (Option CheckpointCandidate)) : CheckpointManifest :=
  { manifest with paretoFrontier := frontier }

/-- What is expected of the selection. -/
structure SelectsRightly : Prop where
  /-- the cap is kept -/
  cap : ∀ d, selectCandidateDecision manifest t = .ok d →
    ∃ stage, d.selected.stage = some stage ∧ stage.le t.maxStageHotspot = true
  /-- the strict tier comes first -/
  tier : ∀ d, selectCandidateDecision manifest t = .ok d →
    (d.selectionTier = .strict ↔ tierSet manifest t .strict ≠ [])
  /-- what is selected is of the tier, and no other candidate of it is ranked before -/
  minimal : ∀ d, selectCandidateDecision manifest t = .ok d →
    d.selected ∈ tierSet manifest t d.selectionTier ∧
      ∀ c ∈ tierSet manifest t d.selectionTier,
        ranksBefore manifest t d.selectionTier c d.selected = false
  /-- in another order the same candidate is selected, or one with the same key -/
  order : ∀ frontier, frontier.Perm manifest.paretoFrontier → ∀ d d',
    selectCandidateDecision manifest t = .ok d →
    selectCandidateDecision (manifest.reorder frontier) t = .ok d' →
    d'.selected = d.selected ∨
      ranksAlike manifest t d.selectionTier d.selected d'.selected = true
  /-- an error, exactly when both tiers are empty -/
  raises : (∃ e, selectCandidateDecision manifest t = .error e) ↔
    tierSet manifest t .strict = [] ∧ tierSet manifest t .activeTolerance = []

/-- Some candidate of the tier is ranked before all others, or alike. -/
def HasLeastKey : Prop :=
  ∃ c, Least (ranksAlike manifest t (tierOf manifest t)) (ranksBefore manifest t (tierOf manifest t))
    (tierSet manifest t (tierOf manifest t)) c

variable {manifest t}

/-- **The cap, the tier and the minimum** are right in every case. -/
theorem selected_spec (ht : t.Valid) {d : SelectionDecision}
    (h : selectCandidateDecision manifest t = .ok d) :
    (∃ stage, d.selected.stage = some stage ∧ stage.le t.maxStageHotspot = true) ∧
      (d.selectionTier = .strict ↔ tierSet manifest t .strict ≠ []) ∧
      d.selected ∈ tierSet manifest t d.selectionTier ∧
      ∀ c ∈ tierSet manifest t d.selectionTier,
        ranksBefore manifest t d.selectionTier c d.selected = false := by
  obtain ⟨htier, -, hmin⟩ := selected_minimum ht h
  obtain ⟨hmem, hbefore⟩ := minBy_spec (ranks_keyOrder _) hmin
  obtain ⟨-, stage, -, hstage, hcap⟩ := of_mem_tierSet hmem
  rw [htier]
  refine ⟨⟨stage, hstage, hcap⟩, ?_, hmem, fun c hc => Bool.eq_false_iff.mpr (hbefore c hc)⟩
  rw [tierOf]
  split
  · rename_i hnil
    simp [hnil]
  · rename_i hne
    simp [hne]

/-! ## The order of the candidates -/

section Reorder

variable {frontier : List (Option CheckpointCandidate)}

theorem tierSet_perm (h : frontier.Perm manifest.paretoFrontier) (tier : SelectionTier) :
    (tierSet (manifest.reorder frontier) t tier).Perm (tierSet manifest t tier) := by
  have hcandidates : (paretoCandidates (manifest.reorder frontier)).Perm
      (paretoCandidates manifest) := (h.filterMap id).filter _
  cases tier with
  | strict => exact hcandidates.filter _
  | activeTolerance => exact hcandidates.filter _

theorem tierOf_reorder (h : frontier.Perm manifest.paretoFrontier) :
    tierOf (manifest.reorder frontier) t = tierOf manifest t := by
  have hnil : tierSet (manifest.reorder frontier) t .strict = [] ↔
      tierSet manifest t .strict = [] := by
    rw [← List.length_eq_zero_iff, ← List.length_eq_zero_iff, (tierSet_perm h .strict).length_eq]
  simp only [tierOf, hnil]

theorem SelectionReadable.reorder (h : frontier.Perm manifest.paretoFrontier)
    (hread : SelectionReadable manifest t) : SelectionReadable (manifest.reorder frontier) t := by
  have hcandidates : (paretoCandidates (manifest.reorder frontier)).Perm
      (paretoCandidates manifest) := (h.filterMap id).filter _
  refine ⟨fun c hc => hread.eligible c (hcandidates.mem_iff.mp hc), fun hnil c hc => ?_, ?_⟩
  · have hnil' : tierSet manifest t .strict = [] := by
      have hperm := tierSet_perm (t := t) h .strict
      rw [hnil] at hperm
      exact hperm.symm.eq_nil
    exact hread.fallback hnil' c (hcandidates.mem_iff.mp hc)
  · rw [tierOf_reorder h]
    exact fun c hc => hread.keys c ((tierSet_perm h _).mem_iff.mp hc)

/-- A candidate of the tier that stands first. -/
theorem tierSet_head (frontier : List (Option CheckpointCandidate)) {tier : SelectionTier}
    {z : CheckpointCandidate} (hz : z ∈ tierSet manifest t tier) :
    ∃ rest, tierSet (manifest.reorder (some z :: frontier)) t tier = z :: rest := by
  have hhead : ∀ test : CheckpointCandidate → Bool,
      z ∈ (paretoCandidates manifest).filter test →
        ∃ rest, (paretoCandidates (manifest.reorder (some z :: frontier))).filter test =
          z :: rest := by
    intro test hmem
    obtain ⟨hcandidate, htest⟩ := List.mem_filter.mp hmem
    have hpath := (List.mem_filter.mp hcandidate).2
    refine ⟨(((frontier.filterMap id).filter fun c => c.checkpointPath ≠ "").filter test), ?_⟩
    change (((some z :: frontier).filterMap id).filter _).filter test = _
    rw [show (some z :: frontier).filterMap id = z :: frontier.filterMap id from rfl,
      List.filter_cons, if_pos hpath, List.filter_cons, if_pos htest]
  cases tier with
  | strict => exact hhead _ hz
  | activeTolerance => exact hhead _ hz

/-- A candidate that nothing is ranked before is selected when it stands first. -/
theorem select_first (ht : t.Valid) (hread : SelectionReadable manifest t)
    {z : CheckpointCandidate} (hz : z ∈ tierSet manifest t (tierOf manifest t))
    (hfirst : ∀ c ∈ tierSet manifest t (tierOf manifest t),
      ¬ ranksBefore manifest t (tierOf manifest t) c z = true) :
    ∃ frontier, frontier.Perm manifest.paretoFrontier ∧
      ∃ d, selectCandidateDecision (manifest.reorder frontier) t = .ok d ∧ d.selected = z := by
  have hentry : some z ∈ manifest.paretoFrontier := by
    have hcandidate : z ∈ paretoCandidates manifest := by
      cases htier : tierOf manifest t with
      | strict => rw [htier] at hz; exact List.mem_of_mem_filter hz
      | activeTolerance => rw [htier] at hz; exact List.mem_of_mem_filter hz
    obtain ⟨e, he, heq⟩ := List.mem_filterMap.mp (List.mem_of_mem_filter hcandidate)
    exact (show e = some z from heq) ▸ he
  let frontier := some z :: manifest.paretoFrontier.erase (some z)
  have hperm : frontier.Perm manifest.paretoFrontier := (List.perm_cons_erase hentry).symm
  obtain ⟨rest, hrest⟩ := tierSet_head (manifest.paretoFrontier.erase (some z)) hz
  have hread' := hread.reorder hperm
  have htier' := tierOf_reorder (t := t) hperm
  have hne : tierSet (manifest.reorder frontier) t (tierOf (manifest.reorder frontier) t) ≠ [] := by
    rw [htier', hrest]
    exact List.cons_ne_nil z rest
  obtain ⟨d, hd⟩ := selectCandidateDecision_of_readable ht hread' hne
  obtain ⟨-, -, hmin⟩ := selected_minimum ht hd
  refine ⟨frontier, hperm, d, hd, ?_⟩
  rw [htier', hrest, minBy_of_head] at hmin
  · exact (Option.some.inj hmin).symm
  · intro c hc
    apply hfirst c
    apply (tierSet_perm hperm _).mem_iff.mp
    rw [hrest]
    exact List.mem_cons_of_mem z hc

end Reorder

/-! ## When it does -/

/-- Without an admissible candidate nothing is selected, and that is right. -/
theorem selectsRightly_of_empty (ht : t.Valid) (hstrict : tierSet manifest t .strict = [])
    (hrelaxed : tierSet manifest t .activeTolerance = []) : SelectsRightly manifest t := by
  have herror : ∀ d, selectCandidateDecision manifest t ≠ .ok d := by
    intro d hd
    obtain ⟨-, -, hmem, -⟩ := selected_spec ht hd
    cases htier : d.selectionTier with
    | strict => rw [htier, hstrict] at hmem; cases hmem
    | activeTolerance => rw [htier, hrelaxed] at hmem; cases hmem
  refine ⟨fun d hd => absurd hd (herror d), fun d hd => absurd hd (herror d),
    fun d hd => absurd hd (herror d), fun _ _ d _ hd => absurd hd (herror d), ?_⟩
  refine ⟨fun _ => ⟨hstrict, hrelaxed⟩, fun _ => ?_⟩
  rcases hselect : selectCandidateDecision manifest t with e | d
  · exact ⟨e, rfl⟩
  · exact absurd hselect (herror d)

/-- A least key decides, whatever the order of the candidates. -/
theorem selectsRightly_of_least (ht : t.Valid) (hread : SelectionReadable manifest t)
    {c : CheckpointCandidate}
    (hleast : Least (ranksAlike manifest t (tierOf manifest t))
      (ranksBefore manifest t (tierOf manifest t)) (tierSet manifest t (tierOf manifest t)) c) :
    SelectsRightly manifest t := by
  have hne : tierSet manifest t (tierOf manifest t) ≠ [] := List.ne_nil_of_mem hleast.1
  refine ⟨fun d hd => (selected_spec ht hd).1, fun d hd => (selected_spec ht hd).2.1,
    fun d hd => (selected_spec ht hd).2.2, fun frontier hperm d d' hd hd' => ?_, ?_⟩
  · obtain ⟨htier, -, hmin⟩ := selected_minimum ht hd
    obtain ⟨-, -, hmin'⟩ := selected_minimum ht hd'
    rw [tierOf_reorder hperm] at hmin'
    rw [htier]
    exact hleast.choice_perm (ranks_keyOrder _) (tierSet_perm hperm _).symm hmin hmin'
  · constructor
    · rintro ⟨e, he⟩
      obtain ⟨d, hd⟩ := selectCandidateDecision_of_readable ht hread hne
      rw [hd] at he
      cases he
    · rintro ⟨hstrict, hrelaxed⟩
      refine absurd ?_ hne
      cases tierOf manifest t with
      | strict => exact hstrict
      | activeTolerance => exact hrelaxed

/-- Where something is selected whatever the order, all could be read and one key is least. -/
theorem SelectsRightly.readable_least (ht : t.Valid) (h : SelectsRightly manifest t)
    {d : SelectionDecision} (hselect : selectCandidateDecision manifest t = .ok d) :
    SelectionReadable manifest t ∧ HasLeastKey manifest t := by
  obtain ⟨htier, hread, hmin⟩ := selected_minimum ht hselect
  refine ⟨hread, ?_⟩
  by_contra hnone
  -- another minimum would be selected if it stood first
  obtain ⟨z, hz, hfirst, hother⟩ :=
    exists_other_minimum (ranks_keyOrder _) hmin fun m hm => hnone ⟨m, hm⟩
  obtain ⟨frontier, hperm, d', hd', rfl⟩ := select_first ht hread hz hfirst
  rcases h.order frontier hperm d d' hselect hd' with heq | halike
  · exact hother (.inl heq)
  · rw [htier] at halike
    exact hother (.inr ((ranks_keyOrder _).symm _ _ halike))

/-- **The selection does what it should** exactly when no candidate is admissible, or all
that it reads can be read and the tier has a least key. -/
theorem select_candidate (ht : t.Valid) :
    SelectsRightly manifest t ↔
      (tierSet manifest t .strict = [] ∧ tierSet manifest t .activeTolerance = []) ∨
        SelectionReadable manifest t ∧ HasLeastKey manifest t := by
  constructor
  · intro h
    by_cases hempty : tierSet manifest t .strict = [] ∧ tierSet manifest t .activeTolerance = []
    · exact .inl hempty
    rcases hselect : selectCandidateDecision manifest t with e | d
    · exact absurd (h.raises.mp ⟨e, hselect⟩) hempty
    · exact .inr (h.readable_least ht hselect)
  · rintro (⟨hstrict, hrelaxed⟩ | ⟨hread, c, hleast⟩)
    · exact selectsRightly_of_empty ht hstrict hrelaxed
    · exact selectsRightly_of_least ht hread hleast

end

/-! ## Metrics that are numbers -/

/-- A number or an infinity, if anything is there. -/
def JsonCell.Numeric (cell : JsonCell FloatValue) : Prop :=
  ∃ x ∈ cell.getOr (.num 0), x.place ≠ none

/-- The metrics of a candidate are numbers or infinite. -/
structure CheckpointCandidate.Numeric (c : CheckpointCandidate) (v3 : Bool) : Prop where
  /-- `active_shards_mean` -/
  active : c.activeShardsMean.Numeric
  /-- `stage_max_load_share` -/
  stage : c.stageMaxLoadShare.Numeric
  /-- `cross_ratio` -/
  cross : c.crossRatio.Numeric
  /-- `validation_score`, which the third version needs -/
  score : v3 = true → c.validationScore.Numeric ∧ c.validationScore ≠ .absent
  /-- `epoch` -/
  epoch : c.epoch.getOr 0 ≠ none

/-- The kinds of entries. -/
def KeyEntry.kind : KeyEntry → ℕ
  | float _ => 0
  | int _ => 1
  | str _ => 2

/-- An entry other than one that is not a number. -/
def KeyEntry.Numeric : KeyEntry → Prop
  | float x => x.place ≠ none
  | _ => True

theorem KeyEntry.total {a b : KeyEntry} (hkind : a.kind = b.kind) (ha : a.Numeric)
    (hb : b.Numeric) : a.lt b = true ∨ a.same b = true ∨ b.lt a = true := by
  cases a with
  | float x =>
    cases b with
    | float y =>
      obtain ⟨p, hp⟩ := Option.ne_none_iff_exists'.mp ha
      obtain ⟨q, hq⟩ := Option.ne_none_iff_exists'.mp hb
      rcases lt_trichotomy p q with hlt | rfl | hgt
      · exact .inl (FloatValue.lt_iff.mpr ⟨p, hp, q, hq, hlt⟩)
      · exact .inr (.inl (FloatValue.same_iff.mpr (.inl ⟨p, hp, hq⟩)))
      · exact .inr (.inr (FloatValue.lt_iff.mpr ⟨q, hq, p, hp, hgt⟩))
    | int _ => cases hkind
    | str _ => cases hkind
  | int m =>
    cases b with
    | float _ => cases hkind
    | int n =>
      rcases lt_trichotomy m n with hlt | rfl | hgt
      · exact .inl (decide_eq_true hlt)
      · exact .inr (.inl (decide_eq_true rfl))
      · exact .inr (.inr (decide_eq_true hgt))
    | str _ => cases hkind
  | str m =>
    cases b with
    | float _ => cases hkind
    | int _ => cases hkind
    | str n =>
      rcases lt_trichotomy m n with hlt | rfl | hgt
      · exact .inl (decide_eq_true hlt)
      · exact .inr (.inl (decide_eq_true rfl))
      · exact .inr (.inr (decide_eq_true hgt))

/-- Keys of the same kinds can be compared. -/
theorem keys_total {k k' : List KeyEntry} (hkind : k.map KeyEntry.kind = k'.map KeyEntry.kind)
    (hk : ∀ e ∈ k, e.Numeric) (hk' : ∀ e ∈ k', e.Numeric) :
    List.Forall₂ (fun a b => KeyEntry.lt a b = true ∨ KeyEntry.same a b = true ∨
      KeyEntry.lt b a = true) k k' := by
  induction k generalizing k' with
  | nil =>
    obtain rfl : k' = [] := List.map_eq_nil_iff.mp hkind.symm
    exact .nil
  | cons a k ih =>
    cases k' with
    | nil => cases hkind
    | cons b k' =>
      obtain ⟨hhead, htail⟩ := List.cons.inj hkind
      exact .cons
        (KeyEntry.total hhead (hk a List.mem_cons_self) (hk' b List.mem_cons_self))
        (ih htail (fun e he => hk e (List.mem_cons_of_mem _ he))
          fun e he => hk' e (List.mem_cons_of_mem _ he))

theorem FloatValue.max0_place (a : FloatValue) : a.max0.place ≠ none := by
  cases a with
  | nan o => exact Option.some_ne_none _
  | num q =>
    rw [max0]
    split <;> exact Option.some_ne_none _
  | posInf => exact Option.some_ne_none _
  | negInf => exact Option.some_ne_none _

theorem FloatValue.neg_place {a : FloatValue} (h : a.place ≠ none) : a.neg.place ≠ none := by
  cases a with
  | nan o => exact absurd rfl h
  | num q => exact Option.some_ne_none _
  | posInf => exact Option.some_ne_none _
  | negInf => exact Option.some_ne_none _

theorem JsonCell.Numeric.getOr {cell : JsonCell FloatValue} (h : cell.Numeric) (q : ℚ) :
    ∃ x, cell.getOr (.num q) = some x ∧ x.place ≠ none := by
  obtain ⟨x, hx, hplace⟩ := h
  cases cell with
  | absent => exact ⟨.num q, rfl, Option.some_ne_none _⟩
  | refused => cases hx
  | value y => exact ⟨x, hx, hplace⟩

/-- The kinds of the entries of a key. -/
def keyKinds : Bool → SelectionTier → List ℕ
  | false, _ => [0, 0, 0, 1, 2]
  | true, .strict => [0, 0, 0, 0, 1, 2]
  | true, .activeTolerance => [0, 0, 0, 0, 0, 1, 2]

section

variable {v3 : Bool} {t : SelectionThresholds} {c : CheckpointCandidate}

theorem CheckpointCandidate.Numeric.deficit (h : c.Numeric v3) :
    ∃ ratio, activeDeficitRatio t c = some ratio ∧ ratio.place ≠ none := by
  obtain ⟨active, hactive, -⟩ := h.active.getOr 0
  exact ⟨_, by rw [activeDeficitRatio, CheckpointCandidate.active, hactive]; rfl,
    FloatValue.max0_place _⟩

theorem CheckpointCandidate.Numeric.strictSortKey (h : c.Numeric v3) :
    ∃ k, BlockEmulator.strictSortKey c = some k ∧ k.map KeyEntry.kind = [0, 0, 0, 1, 2] ∧
      ∀ e ∈ k, e.Numeric := by
  obtain ⟨active, hactive, hactive'⟩ := h.active.getOr 0
  obtain ⟨stage, hstage, hstage'⟩ := h.stage.getOr 1
  obtain ⟨cross, hcross, hcross'⟩ := h.cross.getOr 1
  obtain ⟨epoch, hepoch⟩ := Option.ne_none_iff_exists'.mp h.epoch
  refine ⟨[.float cross, .float stage, .float active.neg, .int epoch, .str c.event], ?_, rfl, ?_⟩
  · rw [BlockEmulator.strictSortKey, CheckpointCandidate.cross, hcross, CheckpointCandidate.stage,
      hstage, CheckpointCandidate.active, hactive, hepoch]
    rfl
  · simp only [List.forall_mem_cons]
    exact ⟨hcross', hstage', FloatValue.neg_place hactive', trivial, trivial,
      fun e he => absurd he List.not_mem_nil⟩

/-- The keys of a tier, where the metrics are numbers. -/
theorem CheckpointCandidate.Numeric.sortKey (h : c.Numeric v3) (tier : SelectionTier) :
    ∃ k, BlockEmulator.sortKey v3 t tier c = some k ∧ k.map KeyEntry.kind = keyKinds v3 tier ∧
      ∀ e ∈ k, e.Numeric := by
  obtain ⟨k, hk, hkinds, hnumeric⟩ := h.strictSortKey
  obtain ⟨ratio, hratio, hratio'⟩ := h.deficit (t := t)
  have hscore : v3 = true → ∃ score, c.validationScore.get = some score ∧
      score.neg.place ≠ none := by
    intro hv
    obtain ⟨⟨score, hscore, hplace⟩, hthere⟩ := h.score hv
    refine ⟨score, ?_, FloatValue.neg_place hplace⟩
    cases hcell : c.validationScore with
    | absent => exact absurd hcell hthere
    | refused => rw [hcell] at hscore; cases hscore
    | value x => rw [hcell] at hscore; exact hscore
  cases v3 with
  | false =>
    cases tier with
    | strict => exact ⟨k, hk, hkinds, hnumeric⟩
    | activeTolerance =>
      obtain ⟨stage, hstage, hstage'⟩ := h.stage.getOr 1
      obtain ⟨cross, hcross, hcross'⟩ := h.cross.getOr 1
      obtain ⟨epoch, hepoch⟩ := Option.ne_none_iff_exists'.mp h.epoch
      refine ⟨[.float ratio, .float cross, .float stage, .int epoch, .str c.event], ?_, rfl, ?_⟩
      · rw [BlockEmulator.sortKey, fallbackSortKey, hratio, CheckpointCandidate.cross, hcross,
          CheckpointCandidate.stage, hstage, hepoch]
        rfl
      · simp only [List.forall_mem_cons]
        exact ⟨hratio', hcross', hstage', trivial, trivial, fun e he => absurd he List.not_mem_nil⟩
  | true =>
    obtain ⟨score, hscore, hscore'⟩ := hscore rfl
    cases tier with
    | strict =>
      refine ⟨.float score.neg :: k, ?_, ?_, List.forall_mem_cons.mpr ⟨hscore', hnumeric⟩⟩
      · rw [BlockEmulator.sortKey, hscore, hk]
        rfl
      · rw [List.map_cons, hkinds]
        rfl
    | activeTolerance =>
      refine ⟨.float ratio :: .float score.neg :: k, ?_, ?_,
        List.forall_mem_cons.mpr ⟨hratio', List.forall_mem_cons.mpr ⟨hscore', hnumeric⟩⟩⟩
      · rw [BlockEmulator.sortKey, hratio, hscore, hk]
        rfl
      · rw [List.map_cons, List.map_cons, hkinds]
        rfl

end

/-- **Where all metrics are numbers or infinite**, all can be read, and a tier that is not
empty has a least key. -/
theorem hasLeastKey_of_numeric {manifest : CheckpointManifest} {t : SelectionThresholds}
    (h : ∀ c ∈ paretoCandidates manifest, c.Numeric manifest.v3)
    (hne : tierSet manifest t (tierOf manifest t) ≠ []) :
    SelectionReadable manifest t ∧ HasLeastKey manifest t := by
  have hmem : ∀ tier, ∀ c ∈ tierSet manifest t tier, c ∈ paretoCandidates manifest := by
    intro tier c hc
    cases tier with
    | strict => exact List.mem_of_mem_filter hc
    | activeTolerance => exact List.mem_of_mem_filter hc
  constructor
  · refine ⟨fun c hc => ?_, fun _ c hc => ?_, fun c hc => ?_⟩
    · obtain ⟨active, hactive, -⟩ := (h c hc).active.getOr 0
      obtain ⟨stage, hstage, -⟩ := (h c hc).stage.getOr 1
      rw [isEligible, CheckpointCandidate.active, hactive, Option.bind_some,
        CheckpointCandidate.stage, hstage]
      split <;> exact Option.some_ne_none _
    · obtain ⟨stage, hstage, -⟩ := (h c hc).stage.getOr 1
      obtain ⟨ratio, hratio, -⟩ := (h c hc).deficit (t := t)
      rw [isFallback, CheckpointCandidate.stage, hstage, Option.bind_some, hratio]
      split <;> exact Option.some_ne_none _
    · obtain ⟨k, hk, -⟩ := (h c (hmem _ c hc)).sortKey (t := t) (tierOf manifest t)
      rw [hk]
      exact Option.some_ne_none k
  · refine least_of_total (ranks_keyOrder _) hne fun a ha b hb => ?_
    obtain ⟨k, hk, hkinds, hk'⟩ := (h a (hmem _ a ha)).sortKey (t := t) (tierOf manifest t)
    obtain ⟨l, hl, hlinds, hl'⟩ := (h b (hmem _ b hb)).sortKey (t := t) (tierOf manifest t)
    rw [ranksBefore, ranksAlike, ranksBefore, hk, hl]
    exact lex_total (keys_total (hkinds.trans hlinds.symm) hk' hl') keyOrder_entry.symm

/-- A candidate without a score. -/
def plainCandidate (epoch : ℤ) (cross : FloatValue) (stage active : ℚ) : CheckpointCandidate where
  checkpointPath := "epoch.pt"
  activeShardsMean := .value (.num active)
  stageMaxLoadShare := .value (.num stage)
  crossRatio := .value cross
  validationScore := .absent
  epoch := .value epoch
  event := ""

/-- The candidates of the test. -/
def testManifest : CheckpointManifest where
  v3 := false
  paretoFrontier :=
    [some (plainCandidate 1 (.num (75 / 100)) (31 / 100) (93 / 10)),
      some (plainCandidate 12 (.num (66 / 100)) (33 / 100) (81 / 10)),
      some (plainCandidate 6 (.num (50 / 100)) (37 / 100) (65 / 10))]

/-- The thresholds of the test. -/
def testThresholds : SelectionThresholds := ⟨.num 8, .num (35 / 100), .num (5 / 100)⟩

theorem testThresholds_valid : testThresholds.Valid :=
  ⟨by decide +kernel, by decide +kernel, by decide +kernel⟩

theorem plainCandidate_numeric (epoch : ℤ) (cross stage active : ℚ) :
    (plainCandidate epoch (.num cross) stage active).Numeric false where
  active := ⟨_, rfl, Option.some_ne_none _⟩
  stage := ⟨_, rfl, Option.some_ne_none _⟩
  cross := ⟨_, rfl, Option.some_ne_none _⟩
  score := fun hv => by cases hv
  epoch := Option.some_ne_none _

/-- The candidate that the test expects would be selected in any order. -/
theorem testManifest_selected : SelectsRightly testManifest testThresholds := by
  refine (select_candidate testThresholds_valid).mpr (.inr (hasLeastKey_of_numeric ?_ ?_))
  · intro c hc
    obtain ⟨e, he, rfl⟩ := List.mem_filterMap.mp (List.mem_of_mem_filter hc)
    simp only [testManifest, List.mem_cons, List.not_mem_nil, or_false] at he
    rcases he with he | he | he
    all_goals
      obtain rfl := Option.some.inj he
      exact plainCandidate_numeric _ _ _ _
  · decide +kernel

/-- Two candidates alike but for the cross ratio, which is not a number in the first. -/
def nanManifest : CheckpointManifest where
  v3 := false
  paretoFrontier :=
    [some (plainCandidate 1 (.nan (some 0)) (3 / 10) 9),
      some (plainCandidate 2 (.num (1 / 2)) (3 / 10) 9)]

/-- **The order of the candidates may decide**: what stands first is selected. -/
theorem nan_first : ¬ SelectsRightly nanManifest testThresholds := by
  intro h
  have hselected : ∀ (m : CheckpointManifest) (c : CheckpointCandidate),
      (selectCandidateDecision m testThresholds).toOption.map (·.selected) = some c →
      ∃ d, selectCandidateDecision m testThresholds = .ok d ∧ d.selected = c := by
    intro m c hm
    rcases hd : selectCandidateDecision m testThresholds with e | d
    · rw [hd] at hm
      cases hm
    · rw [hd] at hm
      exact ⟨d, rfl, Option.some.inj hm⟩
  obtain ⟨d, hd, hfirst⟩ :=
    hselected nanManifest (plainCandidate 1 (.nan (some 0)) (3 / 10) 9) (by decide +kernel)
  obtain ⟨d', hd', hsecond⟩ := hselected
    (nanManifest.reorder nanManifest.paretoFrontier.reverse)
    (plainCandidate 2 (.num (1 / 2)) (3 / 10) 9) (by decide +kernel)
  have halike := h.order _ (List.reverse_perm _) d d' hd hd'
  rw [hfirst, hsecond] at halike
  rcases halike with heq | halike
  · exact absurd heq (by decide +kernel)
  · cases htier : d.selectionTier with
    | strict =>
      rw [htier] at halike
      exact absurd halike (by decide +kernel)
    | activeTolerance =>
      rw [htier] at halike
      exact absurd halike (by decide +kernel)

end BlockEmulator
