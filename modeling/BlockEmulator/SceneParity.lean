import BlockEmulator.StateParity
import BlockEmulator.WeightedNames

/-!
# The scenes of a batch on both sides (`batch_account_scenes`)

Each account of a batch gets the mean of the features of its transactions, of the ends
that it takes in them; one feature is a minimum, one counts the accounts at the other
ends. Go keeps sums and divides them at last, Python keeps all the records.

* `SceneOf.add` — Go's sums stay those of the records.
* `foldl_recordTx` — the two maps grow together, transaction by transaction.
* `SceneOf.mean` — the means of an account are the same.
* `scene_parity` — **the same accounts, with the same features and costs**.
-/

namespace BlockEmulator

open Fallible

/-! ## Python -/

/-- `records` and `peers` of `batch_account_scenes`, with the keys in order. -/
structure SceneRecords where
  /-- the accounts so far -/
  keys : List Address
  /-- `records`: features and costs -/
  records : Address → List (List ℚ × ℚ)
  /-- `peers` -/
  peers : Address → Finset Address

/-- One end of a transaction. -/
def SceneRecords.record (s : SceneRecords) (address peer : Address) (features : List ℚ) (cost : ℚ) :
    SceneRecords where
  keys := appendNew s.keys address
  records := Function.update s.records address (s.records address ++ [(features, cost)])
  peers := Function.update s.peers address (insert peer (s.peers address))

/-- One transaction of `batch_account_scenes`. -/
def recordTx (s : SceneRecords) (tx : OfflineTx) : SceneRecords :=
  (s.record tx.sender tx.recipient tx.iotFeatures tx.communicationCostWeight).record
    tx.recipient tx.sender tx.recipientIotFeatures tx.recipientCommunicationCostWeight

/-- The last loop of `batch_account_scenes`, for one account; `none` is an `IndexError`. -/
def accountScene (values : List (List ℚ × ℚ)) (peers : Finset Address) : Option (List ℚ × ℚ) := do
  let features ← (List.range 10).mapM fun i =>
    (values.mapM fun v => v.1[i]?).map fun column => column.sum / (values.length : ℚ)
  let features := features.set 0 (min 1 ((peers.card : ℚ) / 4))
  let least ← (values.mapM fun v => v.1[2]?).bind List.min?
  return (features.set 2 least, (values.map Prod.snd).sum / (values.length : ℚ))

/-- `batch_account_scenes`; `none` is an `IndexError`. -/
def batchAccountScenes (txs : List OfflineTx) : Option (List (Address × (List ℚ × ℚ))) :=
  let s := txs.foldl recordTx ⟨[], fun _ => [], fun _ => ∅⟩
  s.keys.mapM fun address =>
    (accountScene (s.records address) (s.peers address)).map fun scene => (address, scene)

/-! ## Sums and records -/

/-- One feature in all the records. -/
def column (values : List (List ℚ × ℚ)) (i : ℕ) : List ℚ := values.map fun v => v.1.getD i 0

/-- The least number of a list. -/
def least (l : List ℚ) : ℚ := l.min?.getD 0

theorem least_concat (l : List ℚ) (v : ℚ) :
    least (l ++ [v]) = if l = [] then v else min (least l) v := by
  cases l with
  | nil => rfl
  | cons x xs =>
    rw [if_neg (List.cons_ne_nil x xs), least, least, List.cons_append, List.min?_cons',
      List.min?_cons', List.foldl_append]
    rfl

theorem map_zipIdx_range {α β : Type*} (f : ℕ → α) (g : α × ℕ → β) (n : ℕ) :
    ((List.range n).map f).zipIdx.map g = (List.range n).map fun i => g (f i, i) := by
  apply List.ext_getElem
  · simp
  · intro i h₁ h₂
    simp

/-- What Go keeps of the records of an account. -/
structure SceneOf (values : List (List ℚ × ℚ)) (peers : Finset Address)
    (scene : SpringAccountScene) : Prop where
  /-- their number -/
  count : scene.count = values.length
  /-- the accounts at the other ends -/
  peers : scene.peers = peers
  /-- the sum of the costs -/
  cost : scene.cost = (values.map Prod.snd).sum
  /-- the sums of the features, and the minimum of one -/
  features : scene.features = (List.range 10).map fun i =>
    if i = 2 then least (column values 2) else (column values i).sum
  /-- each record has ten features -/
  width : ∀ v ∈ values, v.1.length = 10

/-- The scene that a new account starts with. -/
def newScene : SpringAccountScene := ⟨List.replicate 10 0, 0, 0, ∅⟩

theorem SceneOf.new : SceneOf [] ∅ newScene where
  count := rfl
  peers := rfl
  cost := rfl
  features := rfl
  width := fun _ hv => absurd hv List.not_mem_nil

/-- One more record. -/
theorem SceneOf.add {values : List (List ℚ × ℚ)} {peers : Finset Address}
    {scene : SpringAccountScene} (h : SceneOf values peers scene) (peer : Address)
    {features : List ℚ} (cost : ℚ) (hlen : features.length = 10) :
    SceneOf (values ++ [(features, cost)]) (insert peer peers)
      { features := scene.features.zipIdx.map fun (old, i) =>
          match features[i]? with
          | none => old
          | some value =>
            if i = 2 then if scene.count = 0 ∨ value < old then value else old
            else old + value
        cost := scene.cost + cost
        count := scene.count + 1
        peers := insert peer scene.peers } where
  count := by rw [h.count, List.length_append, List.length_singleton]
  peers := by rw [h.peers]
  cost := by rw [h.cost, List.map_append, List.sum_append, List.map_singleton, List.sum_singleton]
  features := by
    rw [h.features, map_zipIdx_range]
    refine List.map_congr_left fun i hi => ?_
    have hi' : i < features.length := hlen ▸ List.mem_range.mp hi
    have hcolumn : ∀ j, column (values ++ [(features, cost)]) j =
        column values j ++ [features.getD j 0] := fun j => List.map_append
    simp only [List.getElem?_eq_getElem hi', hcolumn]
    by_cases htwo : i = 2
    · subst htwo
      rw [if_pos rfl, if_pos rfl, if_pos rfl, least_concat, List.getD_eq_getElem _ _ hi', h.count]
      by_cases hnil : values = []
      · subst hnil
        rfl
      · have hcol : column values 2 ≠ [] := fun hempty => hnil (List.map_eq_nil_iff.mp hempty)
        rw [if_neg hcol]
        by_cases hlt : features[2] < least (column values 2)
        · rw [if_pos (.inr hlt), min_eq_right hlt.le]
        · rw [if_neg (not_or.mpr ⟨fun hz => hnil (List.length_eq_zero_iff.mp hz), hlt⟩),
            min_eq_left (not_lt.mp hlt)]
    · rw [if_neg htwo, if_neg htwo, if_neg htwo, List.sum_append, List.sum_singleton,
        List.getD_eq_getElem _ _ hi']
  width := by
    intro v hv
    rcases List.mem_append.mp hv with hv | hv
    · exact h.width v hv
    · rw [List.mem_singleton.mp hv]
      exact hlen

/-- Go's means are those that Python computes. -/
theorem SceneOf.mean {values : List (List ℚ × ℚ)} {peers : Finset Address}
    {scene : SpringAccountScene} (h : SceneOf values peers scene) (hne : values ≠ []) :
    accountScene values peers = some (scene.mean.features, scene.mean.cost) := by
  have hcolumn : ∀ i < 10, values.mapM (fun v => v.1[i]?) = some (column values i) := by
    intro i hi
    refine mapM_some fun v hv => ?_
    have hlt : i < v.1.length := (h.width v hv).symm ▸ hi
    rw [List.getElem?_eq_getElem hlt, List.getD_eq_getElem _ _ hlt]
  have hmeans : ((List.range 10).mapM fun i => (values.mapM fun v => v.1[i]?).map fun column =>
      column.sum / (values.length : ℚ)) =
      some ((List.range 10).map fun i => (column values i).sum / (values.length : ℚ)) := by
    refine mapM_some fun i hi => ?_
    rw [hcolumn i (List.mem_range.mp hi), Option.map_some]
  have hleast : (column values 2).min? = some (least (column values 2)) := by
    have hcol : column values 2 ≠ [] := fun hempty => hne (List.map_eq_nil_iff.mp hempty)
    obtain ⟨v, hv⟩ := Option.ne_none_iff_exists'.mp fun hnone => hcol (List.min?_eq_none_iff.mp hnone)
    rw [least, hv]
    rfl
  simp only [accountScene, hmeans, hcolumn 2 (by omega), hleast, Option.bind_eq_bind,
    Option.bind_some, Option.pure_def, SpringAccountScene.mean, h.features, map_zipIdx_range,
    h.count, h.peers, h.cost]
  -- ten means each, of which two are written over
  rfl

/-! ## Batches -/

/-- Go's scenes and Python's records, account by account. -/
structure SameScenes (scenes : Scenes) (s : SceneRecords) : Prop where
  /-- the scene of an account has the sums of its records -/
  scene : ∀ a, SceneOf (s.records a) (s.peers a) ((scenes a).getD newScene)
  /-- the accounts are the same -/
  present : ∀ a, (scenes a).isSome = true ↔ a ∈ s.keys
  /-- they have records -/
  recorded : ∀ a ∈ s.keys, s.records a ≠ []

/-- One end of a transaction. -/
theorem SameScenes.add {scenes : Scenes} {s : SceneRecords} (h : SameScenes scenes s)
    (address peer : Address) {features : List ℚ} (cost : ℚ) (hlen : features.length = 10) :
    ∃ scenes', scenes.add address peer features cost = some scenes' ∧
      SameScenes scenes' (s.record address peer features cost) := by
  rw [Scenes.add, if_neg (by omega)]
  refine ⟨_, rfl, fun a => ?_, fun a => ?_, fun a ha => ?_⟩
  · by_cases ha : a = address
    · subst ha
      simp only [SceneRecords.record, Function.update_self]
      exact (h.scene a).add peer cost hlen
    · simp only [SceneRecords.record, Function.update_of_ne ha]
      exact h.scene a
  · by_cases ha : a = address
    · subst ha
      simp only [SceneRecords.record, Function.update_self, mem_appendNew, or_true, iff_true]
      rfl
    · simp only [SceneRecords.record, Function.update_of_ne ha, mem_appendNew, ha, or_false]
      exact h.present a
  · by_cases hne : a = address
    · subst hne
      simp only [SceneRecords.record, Function.update_self]
      exact List.append_ne_nil_of_right_ne_nil _ (List.cons_ne_nil _ _)
    · simp only [SceneRecords.record, Function.update_of_ne hne, mem_appendNew, hne,
        or_false] at ha ⊢
      exact h.recorded a ha

/-- A batch of real accounts with a scene for every transaction, ten features for each end. -/
def SceneBatch (rows : SceneRows) (txs : List Transaction) : Prop :=
  ∀ tx ∈ txs, ∃ feature, rows tx.nonce = some feature ∧ feature.realAccounts = true ∧
    feature.features.length = 10 ∧ feature.recipientFeatures.length = 10

theorem foldl_recordTx {rows : SceneRows} {txs : List Transaction} (hbatch : SceneBatch rows txs)
    {scenes : Scenes} {s : SceneRecords} (h : SameScenes scenes s) :
    ∃ scenes', txs.foldlM (addScenes rows) scenes = some scenes' ∧
      SameScenes scenes' ((txs.map (offlineTx rows)).foldl recordTx s) := by
  induction txs generalizing scenes s with
  | nil => exact ⟨scenes, rfl, h⟩
  | cons tx txs ih =>
    obtain ⟨feature, hrow, hreal, hlen, hlen'⟩ := hbatch tx List.mem_cons_self
    obtain ⟨sc₁, h₁, hsame₁⟩ := h.add tx.sender tx.recipient feature.communicationCostWeight hlen
    obtain ⟨sc₂, h₂, hsame₂⟩ := hsame₁.add tx.recipient tx.sender
      feature.recipientCommunicationCostWeight hlen'
    have hone : addScenes rows scenes tx = some sc₂ := by
      simp only [addScenes, hrow, hreal, Bool.true_eq_false, if_false, h₁, Option.bind_some, h₂]
    have hrecord : (s.record tx.sender tx.recipient feature.features
        feature.communicationCostWeight).record tx.recipient tx.sender feature.recipientFeatures
        feature.recipientCommunicationCostWeight = recordTx s (offlineTx rows tx) := by
      simp only [recordTx, offlineTx, hrow, Option.map_some, Option.getD_some]
    rw [hrecord] at hsame₂
    obtain ⟨sc₃, h₃, hsame₃⟩ := ih (fun tx' htx' => hbatch tx' (List.mem_cons_of_mem _ htx')) hsame₂
    refine ⟨sc₃, ?_, hsame₃⟩
    rw [List.foldlM_cons, hone]
    exact h₃

/-- **Both sides give scenes to the same accounts, with the same features and costs.** -/
theorem scene_parity {rows : SceneRows} {txs : List Transaction} (hbatch : SceneBatch rows txs) :
    ∃ scenes result, springRealAccountScenes rows txs = some scenes ∧
      batchAccountScenes (txs.map (offlineTx rows)) = some result ∧
      ∀ a, (scenes a).map (fun scene => (scene.features, scene.cost)) = result.lookup a := by
  have hstart : SameScenes (fun _ => none) ⟨[], fun _ => [], fun _ => ∅⟩ :=
    ⟨fun _ => .new, fun _ => by simp, fun _ ha => absurd ha List.not_mem_nil⟩
  obtain ⟨scenes, hgo, hsame⟩ := foldl_recordTx hbatch hstart
  generalize hs : (txs.map (offlineTx rows)).foldl recordTx ⟨[], fun _ => [], fun _ => ∅⟩ = s at hsame
  -- the scene of each account that is recorded
  have hmean : ∀ a ∈ s.keys, (accountScene (s.records a) (s.peers a)).map (fun scene => (a, scene)) =
      some (a, (((scenes a).getD newScene).mean.features, ((scenes a).getD newScene).mean.cost)) := by
    intro a ha
    rw [(hsame.scene a).mean (hsame.recorded a ha), Option.map_some]
  refine ⟨_, _, by rw [springRealAccountScenes, hgo, Option.map_some],
    by simp only [batchAccountScenes, hs]; exact mapM_some hmean, fun a => ?_⟩
  by_cases ha : a ∈ s.keys
  · obtain ⟨scene, hscene⟩ := Option.isSome_iff_exists.mp ((hsame.present a).mpr ha)
    rw [List.lookup_graph _ ha, hscene]
    rfl
  · have hnone : scenes a = none := by
      rw [← Option.not_isSome_iff_eq_none]
      exact fun hsome => ha ((hsame.present a).mp hsome)
    have hlookup : (s.keys.map fun a => (a, (((scenes a).getD newScene).mean.features,
        ((scenes a).getD newScene).mean.cost))).lookup a = none := by
      refine List.lookup_eq_none_iff.mpr fun entry hentry => ?_
      obtain ⟨b, hb, rfl⟩ := List.mem_map.mp hentry
      have hne : a ≠ b := by
        rintro rfl
        exact ha hb
      exact bne_iff_ne.mpr hne
    rw [hnone, hlookup]
    rfl

/-- Three transactions, in which one account is twice the recipient and once the sender. -/
def sceneTxs : List Transaction :=
  [newTransaction "aa" "bb" 1 0 [], newTransaction "bb" "cc" 1 1 [], newTransaction "aa" "bb" 1 2 []]

/-- Their scenes. -/
def sceneRows : SceneRows := fun nonce => some {
  stateObject := "aa"
  anchorObject := "bb"
  anchorObjects := ["bb"]
  anchorWeights := [1]
  features := List.replicate 10 (1 / (nonce + 2))
  communicationCostWeight := 1 / 2
  realAccounts := true
  recipientFeatures := List.replicate 10 (1 / (nonce + 3))
  recipientCommunicationCostWeight := 1 / 4 }

theorem sceneTxs_parity : ∃ scenes result, springRealAccountScenes sceneRows sceneTxs = some scenes ∧
    batchAccountScenes (sceneTxs.map (offlineTx sceneRows)) = some result ∧
    ∀ a, (scenes a).map (fun scene => (scene.features, scene.cost)) = result.lookup a :=
  scene_parity fun _ _ => ⟨_, rfl, rfl, List.length_replicate, List.length_replicate⟩

end BlockEmulator
