import BlockEmulator.SpringPrepare
import BlockEmulator.StepSystem

/-!
# The placement table

Every path of `springPreparePlacement` writes the table in one of two ways: the policy
places an address that is not in it, and counts it; the seeding places an anchor that is
not in it, and does not. `Grows` says what either keeps; the rest is one lemma for each
procedure, and an induction over the transactions of a batch.

* `commitPlacement_grows`, `seedAnchor_grows` — the two writes.
* `PlacesOne` — what a procedure can do about one address.
* `placement_table` — the table over any run, and the placement of every batch.
-/

namespace BlockEmulator

open StepSystem

variable {H : Type} (E : SpringEnv H)

/-! ## The invariant -/

/-- The number of addresses on shard `s` that the policy placed there. -/
def placedOn (st : PlacementState) (s : ℕ) : ℕ :=
  st.springAddrShard.entries.countP fun e => e.2 = s ∧ e.1 ∉ st.seeded

/-- The counters count, and every entry is a shard. -/
structure TableOk (st : PlacementState) : Prop where
  /-- one counter for each shard -/
  length : st.springShardLoad.length = E.p.shardNum
  /-- every entry is a shard -/
  range : ∀ addr sid, st.springAddrShard.lookup addr = some sid → sid < E.p.shardNum
  /-- a counter is the number of addresses placed by the policy -/
  loads : ∀ s, st.springShardLoad.getD s 0 = placedOn st s
  /-- an anchor is in the table -/
  seeded : ∀ addr ∈ st.seeded, addr ∈ st.springAddrShard

/-- What is in the table stays as it is. -/
def TableKept (st st' : PlacementState) : Prop :=
  ∀ addr sid, st.springAddrShard.lookup addr = some sid →
    st'.springAddrShard.lookup addr = some sid

/-- The table of a call in progress; the placement of the batch is a part of it. -/
structure PlacingOk (s : Placing) : Prop where
  /-- the table and the counters -/
  table : TableOk E s.1
  /-- the batch agrees with the table -/
  batch : ∀ addr sid, s.2.lookup addr = some sid → s.1.springAddrShard.lookup addr = some sid

/-- What every write keeps. -/
structure Grows (s s' : Placing) : Prop where
  /-- the invariant -/
  ok : PlacingOk E s → PlacingOk E s'
  /-- the entries of the table -/
  kept : TableKept s.1 s'.1

variable {E}

theorem Grows.refl (s : Placing) : Grows E s s := ⟨id, fun _ _ h => h⟩

theorem Grows.trans {s s' s'' : Placing} (h : Grows E s s') (h' : Grows E s' s'') :
    Grows E s s'' :=
  ⟨fun hs => h'.ok (h.ok hs), fun a sid ha => h'.kept a sid (h.kept a sid ha)⟩

/-- What is in the table is in it later. -/
theorem TableKept.mem {st st' : PlacementState} (h : TableKept st st') {addr : Address}
    (ha : addr ∈ st.springAddrShard) : addr ∈ st'.springAddrShard := by
  obtain ⟨sid, hsid⟩ := Option.isSome_iff_exists.mp (AList.lookup_isSome.mpr ha)
  exact AList.lookup_isSome.mp (by rw [h addr sid hsid]; rfl)

/-- The two states have one table. -/
structure SameTable (st st' : PlacementState) : Prop where
  /-- `springAddrShard` -/
  table : st'.springAddrShard = st.springAddrShard
  /-- `springShardLoad` -/
  load : st'.springShardLoad = st.springShardLoad
  /-- the anchors -/
  seeded : st'.seeded = st.seeded

theorem SameTable.refl (st : PlacementState) : SameTable st st := ⟨rfl, rfl, rfl⟩

theorem SameTable.tableOk {st st' : PlacementState} (h : SameTable st st') (hok : TableOk E st) :
    TableOk E st' := by
  obtain ⟨htable, hload, hseeded⟩ := h
  refine ⟨by rw [hload]; exact hok.length, by rw [htable]; exact hok.range, fun s => ?_, ?_⟩
  · rw [hload, placedOn, htable, hseeded]
    exact hok.loads s
  · rw [htable, hseeded]
    exact hok.seeded

theorem SameTable.grows {st st' : PlacementState} (h : SameTable st st') (b : BatchPlacement) :
    Grows E (st, b) (st', b) where
  ok hs := ⟨h.tableOk hs.table, fun a sid ha => by
    rw [h.table]
    exact hs.batch a sid ha⟩
  kept a sid ha := by
    rw [h.table]
    exact ha

/-! ## The two writes -/

/-- One more entry, at a new address: the others stay. -/
theorem kept_insert {st st' : PlacementState} {addr : Address} {sid : ℕ}
    (hnew : addr ∉ st.springAddrShard)
    (htable : st'.springAddrShard = st.springAddrShard.insert addr sid) : TableKept st st' := by
  intro a n ha
  have hne : a ≠ addr := by
    rintro rfl
    exact hnew (AList.lookup_isSome.mp (by rw [ha]; rfl))
  rw [htable, AList.lookup_insert_ne hne]
  exact ha

/-- One more entry: the batch agrees with the table again. -/
theorem batch_insert {t : AddrShard} {b : BatchPlacement} (addr : Address) (sid : ℕ)
    (hb : ∀ a n, b.lookup a = some n → t.lookup a = some n) (a : Address) (n : ℕ)
    (ha : (b.insert addr sid).lookup a = some n) : (t.insert addr sid).lookup a = some n := by
  by_cases hne : a = addr
  · rw [hne, AList.lookup_insert] at ha ⊢
    exact ha
  · rw [AList.lookup_insert_ne hne] at ha ⊢
    exact hb a n ha

/-- One more entry in range: all entries are in range. -/
theorem range_insert {t : AddrShard} {n : ℕ} {addr : Address} {sid : ℕ} (hsid : sid < n)
    (ht : ∀ a m, t.lookup a = some m → m < n) (a : Address) (m : ℕ)
    (ha : (t.insert addr sid).lookup a = some m) : m < n := by
  by_cases hne : a = addr
  · rw [hne, AList.lookup_insert] at ha
    cases ha
    exact hsid
  · rw [AList.lookup_insert_ne hne] at ha
    exact ht a m ha

/-- **The policy places a new address**: it is counted. -/
theorem commitPlacement_grows {s s' : Placing} {addr : Address} {sid : ℕ}
    (hnew : s.1.springAddrShard.lookup addr = none) (h : commitPlacement s addr sid = some s') :
    Grows E s s' ∧ addr ∈ s'.1.springAddrShard := by
  unfold commitPlacement at h
  split at h
  next hsid =>
    cases h
    have hnew : addr ∉ s.1.springAddrShard := AList.lookup_eq_none.mp hnew
    refine ⟨⟨fun hok => ⟨⟨?_, ?_, fun n => ?_, fun a ha => ?_⟩, ?_⟩, kept_insert hnew rfl⟩,
      (AList.mem_insert _).mpr (.inl rfl)⟩
    · simpa using hok.table.length
    · exact range_insert (hok.table.length ▸ hsid) hok.table.range
    · have hseeded : addr ∉ s.1.seeded := fun ha => hnew (hok.table.seeded addr ha)
      have hold := hok.table.loads n
      simp only [placedOn, AList.entries_insert_of_notMem hnew, List.countP_cons] at hold ⊢
      rw [List.getD_eq_getElem?_getD] at hold ⊢
      by_cases hn : sid = n
      · subst hn
        simp only [List.getElem?_modify_eq, hseeded]
        rw [List.getElem?_eq_getElem hsid] at hold ⊢
        simpa using hold
      · simpa [List.getElem?_modify, hn] using hold
    · exact (AList.mem_insert _).mpr (.inr (hok.table.seeded a ha))
    · exact batch_insert addr sid hok.batch
  next => cases h

/-- The policy places a new address, after what else it does. -/
theorem place_grows {s s' : Placing} {st : PlacementState} {addr : Address} {sid : ℕ}
    (hnew : s.1.springAddrShard.lookup addr = none) (hsame : SameTable s.1 st)
    (h : commitPlacement (st, s.2) addr sid = some s') :
    Grows E s s' ∧ addr ∈ s'.1.springAddrShard := by
  have hnew' : (st, s.2).1.springAddrShard.lookup addr = none := by
    rw [hsame.table]
    exact hnew
  obtain ⟨hgrows, hmem⟩ := commitPlacement_grows hnew' h
  exact ⟨(hsame.grows s.2).trans hgrows, hmem⟩

/-- **An anchor is placed by its hash**: it is not counted. -/
theorem seedAnchor_grows (hp : 0 < E.p.shardNum) (s : Placing) (anchor : Address) :
    Grows E s (seedAnchor E s anchor) := by
  unfold seedAnchor
  split
  next => exact Grows.refl s
  next =>
    split
    next sid hsid =>
      refine ⟨fun hok => ⟨hok.table, fun a n ha => ?_⟩, fun _ _ h => h⟩
      by_cases hne : a = anchor
      · rw [hne, AList.lookup_insert] at ha
        cases ha
        rw [hne]
        exact hsid
      · rw [AList.lookup_insert_ne hne] at ha
        exact hok.batch a n ha
    next hnew =>
      have hnew : anchor ∉ s.1.springAddrShard := AList.lookup_eq_none.mp hnew
      refine ⟨fun hok => ⟨⟨hok.table.length, ?_, fun n => ?_, fun a ha => ?_⟩, ?_⟩,
        kept_insert hnew rfl⟩
      · exact range_insert (addr2ShardWithShardNum_lt E.hash anchor hp) hok.table.range
      · have hold := hok.table.loads n
        -- no entry of the table is the anchor's, so none is counted less
        have hothers : ∀ e ∈ s.1.springAddrShard.entries, e.1 ≠ anchor := by
          rintro e he rfl
          exact hnew (AList.mem_keys.mpr (List.mem_map_of_mem he))
        simp only [placedOn, AList.entries_insert_of_notMem hnew, List.countP_cons] at hold ⊢
        rw [hold]
        simp only [List.mem_cons, true_or, not_true_eq_false, and_false, decide_false,
          Bool.false_eq_true, if_false, add_zero]
        apply List.countP_congr
        intro e he
        simp [hothers e he]
      · rcases List.mem_cons.mp ha with rfl | ha
        · exact (AList.mem_insert _).mpr (.inl rfl)
        · exact (AList.mem_insert _).mpr (.inr (hok.table.seeded a ha))
      · exact batch_insert anchor _ hok.batch

/-- A seeded anchor is in the table. -/
theorem seedAnchor_mem (s : Placing) {anchor : Address} (hne : anchor ≠ "") :
    anchor ∈ (seedAnchor E s anchor).1.springAddrShard := by
  rw [seedAnchor, if_neg hne]
  split
  next sid hsid => exact AList.lookup_isSome.mp (by rw [hsid]; rfl)
  next => exact (AList.mem_insert _).mpr (.inl rfl)

/-- What was touched is looked up. -/
theorem fillTouched_grows (s : Placing) (addr : Address) : Grows E s (fillTouched s addr) := by
  unfold fillTouched
  split
  next sid hsid =>
    refine ⟨fun hok => ⟨hok.table, fun a n ha => ?_⟩, fun _ _ h => h⟩
    by_cases hne : a = addr
    · rw [hne, AList.lookup_insert] at ha
      cases ha
      rw [hne]
      exact hsid
    · rw [AList.lookup_insert_ne hne] at ha
      exact hok.batch a n ha
  next => exact Grows.refl s

/-! ## Loops -/

/-- A loop of writes grows. -/
theorem foldl_grows {α : Type} {f : Placing → α → Placing} (hf : ∀ s a, Grows E s (f s a))
    (l : List α) (s : Placing) : Grows E s (l.foldl f s) := by
  induction l generalizing s with
  | nil => exact Grows.refl s
  | cons a l ih => exact (hf s a).trans (ih (f s a))

/-- A loop that places one address after another: it grows, and what one round places is
in the table at the end. `proj` is the call in progress. -/
theorem foldlM_grows {α σ : Type} {f : σ → α → Option σ} (proj : σ → Placing)
    (places : α → Address → Prop)
    (hf : ∀ s a s', f s a = some s' → Grows E (proj s) (proj s') ∧
      ∀ addr, places a addr → addr ∈ (proj s').1.springAddrShard)
    {l : List α} {s s' : σ} (h : l.foldlM f s = some s') :
    Grows E (proj s) (proj s') ∧
      ∀ a ∈ l, ∀ addr, places a addr → addr ∈ (proj s').1.springAddrShard := by
  induction l generalizing s with
  | nil =>
    obtain rfl : s = s' := by simpa using h
    exact ⟨Grows.refl _, fun a ha => by cases ha⟩
  | cons a l ih =>
    rw [List.foldlM_cons] at h
    obtain ⟨t, ht, hl⟩ := Option.bind_eq_some_iff.mp h
    obtain ⟨hgrows, hmem⟩ := hf s a t ht
    obtain ⟨hrest, hrestMem⟩ := ih hl
    refine ⟨hgrows.trans hrest, fun b hb addr hp => ?_⟩
    rcases List.mem_cons.mp hb with rfl | hb
    · exact hrest.kept.mem (hmem addr hp)
    · exact hrestMem b hb addr hp

/-! ## The procedures -/

/-- Nothing happens to the table, no batch is counted and none is enqueued. -/
structure Aside (st st' : PlacementState) : Prop where
  /-- the table stays -/
  same : SameTable st st'
  /-- `springTxBatchSeq` -/
  seq : st'.springTxBatchSeq = st.springTxBatchSeq
  /-- the calls of `springEnqueueTrainActionsLocked` -/
  enqueued : st'.enqueued = st.enqueued

theorem Aside.refl (st : PlacementState) : Aside st st := ⟨.refl st, rfl, rfl⟩

theorem append_aside (st : PlacementState) (record : SpringDecisionRecord) :
    Aside st (st.append record) := ⟨⟨rfl, rfl, rfl⟩, rfl, rfl⟩

theorem springChooseShardRandom_aside (st : PlacementState) :
    Aside st (springChooseShardRandom E st).2 := by
  unfold springChooseShardRandom
  split
  · exact .refl st
  · exact ⟨⟨rfl, rfl, rfl⟩, rfl, rfl⟩

theorem springChooseShardPPO_aside (st : PlacementState) (addr related : Address) :
    Aside st (springChooseShardPPO E st addr related).2 := by
  dsimp only [springChooseShardPPO, springCallPythonBatch]
  split
  · split
    · exact ⟨⟨rfl, rfl, rfl⟩, rfl, rfl⟩
    · exact ⟨⟨rfl, rfl, rfl⟩, rfl, rfl⟩
  · exact ⟨⟨rfl, rfl, rfl⟩, rfl, rfl⟩

theorem enqueue_same (st : PlacementState) (batchID : ℕ) (actions : List SpringTrainAction)
    (txs : List Transaction) : SameTable st (enqueue E st batchID actions txs) := by
  unfold enqueue
  split
  · exact ⟨rfl, rfl, rfl⟩
  · exact .refl st

/-- What a procedure does about an address: nothing if it is in the table; else one commit,
with what leaves the table alone before and after it. -/
inductive PlacesOne (s : Placing) (addr : Address) : Placing → Prop
  | known {sid : ℕ} (h : s.1.springAddrShard.lookup addr = some sid) : PlacesOne s addr s
  | placed {st st' : PlacementState} {t : Placing} {sid : ℕ}
      (hnew : s.1.springAddrShard.lookup addr = none) (hbefore : Aside s.1 st)
      (hcommit : commitPlacement (st, s.2) addr sid = some t) (hafter : Aside t.1 st') :
      PlacesOne s addr (st', t.2)

/-- A commit and nothing else. -/
theorem PlacesOne.commit {s s' : Placing} {addr : Address} {sid : ℕ}
    (hnew : s.1.springAddrShard.lookup addr = none) (h : commitPlacement s addr sid = some s') :
    PlacesOne s addr s' :=
  .placed hnew (.refl s.1) h (.refl s'.1)

/-- The table grows by the address. -/
theorem PlacesOne.grows {s s' : Placing} {addr : Address} (h : PlacesOne s addr s') :
    Grows E s s' ∧ addr ∈ s'.1.springAddrShard := by
  cases h with
  | known hsid => exact ⟨Grows.refl s, AList.lookup_isSome.mp (by rw [hsid]; rfl)⟩
  | placed hnew hbefore hcommit hafter =>
    obtain ⟨hgrows, hmem⟩ := place_grows (E := E) hnew hbefore.same hcommit
    refine ⟨hgrows.trans (hafter.same.grows _), ?_⟩
    rw [hafter.same.table]
    exact hmem

theorem springEnsurePlaced_placesOne {s s' : Placing} {addr related : Address}
    (h : springEnsurePlaced E s addr related = some s') : PlacesOne s addr s' := by
  unfold springEnsurePlaced at h
  split at h
  next hsid =>
    cases h
    exact .known hsid
  next hnew =>
    split at h
    · exact .commit hnew h
    · exact .placed hnew (springChooseShardPPO_aside s.1 addr related) h (.refl _)
    · exact .placed hnew (springChooseShardRandom_aside s.1) h (.refl _)
    all_goals exact .commit hnew h

theorem springEnsurePlacedWithBatchRelated_placesOne {s s' : Placing} {addr related : Address}
    {batchRelated : RelatedMap}
    (h : springEnsurePlacedWithBatchRelated E s addr related batchRelated = some s') :
    PlacesOne s addr s' := by
  unfold springEnsurePlacedWithBatchRelated at h
  split at h
  next hsid =>
    cases h
    exact .known hsid
  next hnew => exact .commit hnew h

theorem springEnsurePlacedAnchorOnlyWithBatchRelated_placesOne {s s' : Placing}
    {addr related : Address} {batchRelated : RelatedMap}
    (h : springEnsurePlacedAnchorOnlyWithBatchRelated E s addr related batchRelated = some s') :
    PlacesOne s addr s' := by
  unfold springEnsurePlacedAnchorOnlyWithBatchRelated at h
  split at h
  next hsid =>
    cases h
    exact .known hsid
  next hnew => exact .commit hnew h

theorem springEnsurePlacedNSShardAdaptedWithBatchWeights_placesOne {s s' : Placing}
    {addr related : Address} {weights : WeightMap}
    (h : springEnsurePlacedNSShardAdaptedWithBatchWeights E s addr related weights = some s') :
    PlacesOne s addr s' := by
  unfold springEnsurePlacedNSShardAdaptedWithBatchWeights at h
  split at h
  next hsid =>
    cases h
    exact .known hsid
  next hnew => exact .commit hnew h

/-- The sequential procedures skip the empty address. -/
def PlacesUnlessEmpty (s : Placing) (addr : Address) (s' : Placing) : Prop :=
  addr = "" ∧ s' = s ∨ PlacesOne s addr s'

theorem PlacesUnlessEmpty.grows {s s' : Placing} {addr : Address}
    (h : PlacesUnlessEmpty s addr s') :
    Grows E s s' ∧ (addr ≠ "" → addr ∈ s'.1.springAddrShard) := by
  rcases h with ⟨hempty, rfl⟩ | h
  · exact ⟨Grows.refl s', fun hne => absurd hempty hne⟩
  · exact ⟨h.grows.1, fun _ => (h.grows (E := E)).2⟩

theorem springPlaceAddressCandidateOnlySequential_places {txBatchID : ℕ} {s s' : Placing}
    {addr related : Address} {batchRelated : RelatedMap} {extraFeatures : List ℚ}
    (h : springPlaceAddressCandidateOnlySequential E txBatchID s addr related batchRelated
      extraFeatures = some s') : PlacesUnlessEmpty s addr s' := by
  unfold springPlaceAddressCandidateOnlySequential at h
  split at h
  next hempty =>
    cases h
    exact .inl ⟨hempty, rfl⟩
  next =>
    split at h
    next hsid =>
      cases h
      exact .inr (.known hsid)
    next hnew =>
      obtain ⟨t, ht, rfl⟩ := Option.map_eq_some_iff.mp h
      exact .inr (.placed hnew (.refl s.1) ht (append_aside t.1 _))

theorem springPlaceAddressPPOSequential_places {s : Placing} {addr related : Address}
    {batchRelated : RelatedMap} {extraFeatures : List ℚ} {iotCosts : Option (List ℚ)}
    {r : Placing × Option SpringTrainAction}
    (h : springPlaceAddressPPOSequential E s addr related batchRelated extraFeatures iotCosts =
      some r) : PlacesUnlessEmpty s addr r.1 := by
  unfold springPlaceAddressPPOSequential at h
  split at h
  next hempty =>
    cases h
    exact .inl ⟨hempty, rfl⟩
  next =>
    split at h
    next hsid =>
      cases h
      exact .inr (.known hsid)
    next hnew =>
      dsimp only [springCallPythonBatch] at h
      generalize E.callPython _ _ = results at h
      have hbefore : Aside s.1 { s.1 with springActionSeq := s.1.springActionSeq + 1 } :=
        ⟨⟨rfl, rfl, rfl⟩, rfl, rfl⟩
      -- whatever the reply is, it decides the shard and the record, not what is kept
      split at h
      all_goals
        split at h
        · cases h
        · obtain ⟨t, ht, rfl⟩ := Option.map_eq_some_iff.mp h
          rw [apply_ite Prod.fst, ite_self]
          exact .inr (.placed hnew hbefore ht (append_aside t.1 _))

/-! ## One batch -/

/-- The empty address is skipped by the sequential procedures of modes 2 and 7. -/
def SkipsEmpty (p : SpringConfig) : Prop := p.springMode = 2 ∨ p.springMode = 7

/-- An address that a procedure places, if it does not skip it. -/
def Places (p : SpringConfig) (target addr : Address) : Prop :=
  addr = target ∧ (SkipsEmpty p → target ≠ "")

/-- One address, in any mode; modes 2 and 7 skip the empty one. -/
theorem placeReal_places {B : RealBatch} {s s' : Placing × List SpringTrainAction}
    {e : Address × Address} (h : placeReal E B s e = some s') :
    SkipsEmpty E.p ∧ PlacesUnlessEmpty s.1 e.1 s'.1 ∨ PlacesOne s.1 e.1 s'.1 := by
  unfold placeReal at h
  obtain ⟨scene, -, h⟩ := Option.bind_eq_some_iff.mp h
  obtain ⟨vector, -, h⟩ := Option.bind_eq_some_iff.mp h
  dsimp only at h
  split at h
  next hmode =>
    obtain ⟨r, hr, rfl⟩ := Option.map_eq_some_iff.mp h
    exact .inl ⟨.inl hmode, springPlaceAddressPPOSequential_places hr⟩
  next hmode =>
    obtain ⟨r, hr, rfl⟩ := Option.map_eq_some_iff.mp h
    exact .inl ⟨.inr hmode, springPlaceAddressCandidateOnlySequential_places hr⟩
  all_goals obtain ⟨r, hr, rfl⟩ := Option.map_eq_some_iff.mp h
  · exact .inr (springEnsurePlacedWithBatchRelated_placesOne hr)
  · exact .inr (springEnsurePlacedAnchorOnlyWithBatchRelated_placesOne hr)
  · exact .inr (springEnsurePlacedNSShardAdaptedWithBatchWeights_placesOne hr)
  · exact .inr (springEnsurePlaced_placesOne hr)

theorem placeReal_grows {B : RealBatch} {s s' : Placing × List SpringTrainAction}
    {e : Address × Address} (h : placeReal E B s e = some s') :
    Grows E s.1 s'.1 ∧ ∀ addr, Places E.p e.1 addr → addr ∈ s'.1.1.springAddrShard := by
  rcases placeReal_places h with ⟨hskips, hplaces⟩ | hplaces
  · obtain ⟨hgrows, hmem⟩ := hplaces.grows (E := E)
    refine ⟨hgrows, ?_⟩
    rintro addr ⟨rfl, hskip⟩
    exact hmem (hskip hskips)
  · obtain ⟨hgrows, hmem⟩ := hplaces.grows (E := E)
    refine ⟨hgrows, ?_⟩
    rintro addr ⟨rfl, -⟩
    exact hmem

/-- The addresses are those of state objects and of their anchors. -/
def stateObjects (p : SpringConfig) : Bool :=
  springIOTIdentityEnabled p && !springRealAccountsEnabled p

variable (E) in
/-- An end of a transaction that the procedures do not skip: where the addresses are those
of state objects, the recipient is an anchor of its transaction, or nothing places it. -/
def Endpoint (tx : Transaction) (addr : Address) : Prop :=
  Places E.p tx.sender addr ∨
    if stateObjects E.p then
      addr = tx.recipient ∧ addr ≠ "" ∧ addr ∈ springIOTAnchorsForTx E.rows tx
    else Places E.p tx.recipient addr

variable (E) in
/-- The ends of the transactions are in the table. -/
def Covered (txs : List Transaction) (s : Placing) : Prop :=
  ∀ tx ∈ txs, ∀ addr, Endpoint E tx addr → addr ∈ s.1.springAddrShard

theorem Endpoint.eq {tx : Transaction} {addr : Address} (h : Endpoint E tx addr) :
    addr = tx.sender ∨ addr = tx.recipient := by
  rcases h with h | h
  · exact .inl h.1
  · split at h
    · exact .inr h.1
    · exact .inr h.1

theorem springSeedIOTAnchorShards_grows (hp : 0 < E.p.shardNum) (s : Placing)
    (txs : List Transaction) : Grows E s (springSeedIOTAnchorShards E s txs) :=
  foldl_grows (seedAnchor_grows hp) _ s

theorem springSeedIOTAnchorShards_mem (hp : 0 < E.p.shardNum) (s : Placing)
    {txs : List Transaction} {tx : Transaction} (htx : tx ∈ txs) {anchor : Address}
    (hmem : anchor ∈ springIOTAnchorsForTx E.rows tx) (hne : anchor ≠ "") :
    anchor ∈ (springSeedIOTAnchorShards E s txs).1.springAddrShard := by
  obtain ⟨l, l', hl⟩ := List.append_of_mem (List.mem_flatMap.mpr ⟨tx, htx, hmem⟩)
  rw [springSeedIOTAnchorShards, hl, List.foldl_append, List.foldl_cons]
  exact (foldl_grows (seedAnchor_grows hp) l' _).kept.mem (seedAnchor_mem _ hne)

/-- Where both ends of every transaction are placed, the ends are in the table. -/
theorem covered_of_places {txs : List Transaction} {s : Placing} (hobjects : stateObjects E.p = false)
    (h : ∀ tx ∈ txs, ∀ addr, Places E.p tx.sender addr ∨ Places E.p tx.recipient addr →
      addr ∈ s.1.springAddrShard) : Covered E txs s := by
  intro tx htx addr hend
  apply h tx htx addr
  rcases hend with hend | hend
  · exact .inl hend
  · rw [hobjects, if_neg Bool.false_ne_true] at hend
    exact .inr hend

/-- Where the anchors are seeded and every sender is placed, the ends are in the table. -/
theorem covered_of_seeded (hp : 0 < E.p.shardNum) {txs : List Transaction} {s₀ s : Placing}
    (hobjects : stateObjects E.p = true) (hgrows : Grows E (springSeedIOTAnchorShards E s₀ txs) s)
    (h : ∀ tx ∈ txs, ∀ addr, Places E.p tx.sender addr → addr ∈ s.1.springAddrShard) :
    Covered E txs s := by
  intro tx htx addr hend
  rcases hend with hend | hend
  · exact h tx htx addr hend
  · rw [if_pos hobjects] at hend
    obtain ⟨rfl, hne, hmem⟩ := hend
    exact hgrows.kept.mem (springSeedIOTAnchorShards_mem hp s₀ htx hmem hne)

/-- Every end of a transaction is in the order of the placements. -/
theorem mem_placeOrder (p : SpringConfig) {txs : List Transaction} {tx : Transaction}
    (htx : tx ∈ txs) :
    (∃ peer, (tx.sender, peer) ∈ placeOrder p txs) ∧
      ∃ peer, (tx.recipient, peer) ∈ placeOrder p txs := by
  unfold placeOrder
  split
  · exact ⟨⟨"", by simp; grind⟩, ⟨tx.sender, by simp; grind⟩⟩
  · exact ⟨⟨tx.recipient, by simp; grind⟩, ⟨tx.sender, by simp; grind⟩⟩

/-- A loop over the order of the placements puts both ends in the table. -/
theorem covered_of_order {p : SpringConfig} {txs : List Transaction} {s : Placing}
    (hobjects : stateObjects E.p = false)
    (h : ∀ e ∈ placeOrder p txs, ∀ addr, Places E.p e.1 addr → addr ∈ s.1.springAddrShard) :
    Covered E txs s := by
  apply covered_of_places hobjects
  intro tx htx addr hend
  obtain ⟨⟨_, hsender⟩, ⟨_, hrecipient⟩⟩ := mem_placeOrder p htx
  rcases hend with hend | hend
  · exact h _ hsender addr hend
  · exact h _ hrecipient addr hend

theorem springFillTouchedPlacement_grows (s : Placing) (txs : List Transaction) :
    Grows E s (springFillTouchedPlacement s txs) :=
  foldl_grows fillTouched_grows _ s

theorem fillTouched_table (s : Placing) (addr : Address) : (fillTouched s addr).1 = s.1 := by
  unfold fillTouched
  split
  · rfl
  · rfl

theorem springFillTouchedPlacement_state (s : Placing) (txs : List Transaction) :
    (springFillTouchedPlacement s txs).1 = s.1 := by
  unfold springFillTouchedPlacement
  generalize txs.flatMap _ = l
  induction l generalizing s with
  | nil => rfl
  | cons addr l ih => rw [List.foldl_cons, ih, fillTouched_table]

theorem fillTouched_mem {s : Placing} (addr : Address) {a : Address}
    (h : a ∈ s.2 ∨ (a = addr ∧ a ∈ s.1.springAddrShard)) : a ∈ (fillTouched s addr).2 := by
  unfold fillTouched
  split
  next => exact (AList.mem_insert _).mpr (h.symm.imp And.left id)
  next hnone =>
    rcases h with h | ⟨rfl, h⟩
    · exact h
    · exact absurd h (AList.lookup_eq_none.mp hnone)

/-- What is in the table when it is looked up is in the placement of the batch. -/
theorem foldl_fillTouched_mem {a : Address} {l : List Address} {s : Placing}
    (h : a ∈ s.2 ∨ (a ∈ l ∧ a ∈ s.1.springAddrShard)) : a ∈ (l.foldl fillTouched s).2 := by
  induction l generalizing s with
  | nil => simpa using h
  | cons addr l ih =>
    apply ih
    rw [fillTouched_table]
    rcases h with h | ⟨hl, ht⟩
    · exact .inl (fillTouched_mem addr (.inl h))
    · rcases List.mem_cons.mp hl with rfl | hl
      · exact .inl (fillTouched_mem a (.inr ⟨rfl, ht⟩))
      · exact .inr ⟨hl, ht⟩

/-- The end of every path: what was placed, and then looked up. -/
theorem filled_spec {s t : Placing} {txs : List Transaction} (hgrows : Grows E s t)
    (hcovered : Covered E txs t) :
    Grows E s (springFillTouchedPlacement t txs) ∧
      ∀ tx ∈ txs, ∀ addr, Endpoint E tx addr →
        addr ∈ (springFillTouchedPlacement t txs).2 := by
  refine ⟨hgrows.trans (springFillTouchedPlacement_grows t txs), fun tx htx addr hend => ?_⟩
  apply foldl_fillTouched_mem
  refine .inr ⟨List.mem_flatMap.mpr ⟨tx, htx, ?_⟩, hcovered tx htx addr hend⟩
  rcases hend.eq with rfl | rfl
  · simp
  · simp

theorem springPrepareRealAccountPlacement_spec {st : PlacementState} {txs : List Transaction}
    {s' : Placing} (hreal : springRealAccountsEnabled E.p = true) (hmode : E.p.springMode ≠ 0)
    (h : springPrepareRealAccountPlacement E st txs = some s') :
    Grows E (st, ∅) s' ∧ ∀ tx ∈ txs, ∀ addr, Endpoint E tx addr → addr ∈ s'.2 := by
  unfold springPrepareRealAccountPlacement at h
  rw [if_neg hmode] at h
  split at h
  · cases h
  · obtain ⟨scenes, -, h⟩ := Option.bind_eq_some_iff.mp h
    obtain ⟨r, hr, rfl⟩ := Option.map_eq_some_iff.mp h
    obtain ⟨hgrows, hmem⟩ := foldlM_grows Prod.fst (fun e addr => Places E.p e.1 addr)
      (fun s e s' he => placeReal_grows he) hr
    have hseq : SameTable st { st with springTxBatchSeq := st.springTxBatchSeq + 1 } :=
      ⟨rfl, rfl, rfl⟩
    have hlast : SameTable r.1.1 (if E.p.springMode = 2 then
        enqueue E r.1.1 (st.springTxBatchSeq + 1) r.2 txs else r.1.1) := by
      split
      · exact enqueue_same _ _ _ _
      · exact .refl _
    have hgrows' := hlast.grows (E := E) r.1.2
    refine filled_spec (((hseq.grows ∅).trans hgrows).trans hgrows') ?_
    have hobjects : stateObjects E.p = false := by simp [stateObjects, hreal]
    exact covered_of_order hobjects fun e he addr hp => hgrows'.kept.mem (hmem e he addr hp)

theorem ensureBothPlaced_spec {s s' : Placing} {txs : List Transaction}
    (hobjects : stateObjects E.p = false) (h : ensureBothPlaced E s txs = some s') :
    Grows E s s' ∧ Covered E txs s' := by
  obtain ⟨hgrows, hmem⟩ := foldlM_grows id (fun e addr => Places E.p e.1 addr) (fun s e s' he => by
      obtain ⟨hg, hm⟩ := (springEnsurePlaced_placesOne he).grows (E := E)
      refine ⟨hg, ?_⟩
      rintro addr ⟨rfl, -⟩
      exact hm) h
  refine ⟨hgrows, covered_of_places hobjects fun tx htx addr hp => ?_⟩
  rcases hp with hp | hp
  · exact hmem (tx.sender, tx.recipient) (List.mem_flatMap.mpr ⟨tx, htx, by simp⟩) addr hp
  · exact hmem (tx.recipient, tx.sender) (List.mem_flatMap.mpr ⟨tx, htx, by simp⟩) addr hp

theorem ensureSendersPlaced_spec (hp : 0 < E.p.shardNum) {s s' : Placing}
    {place : Placing → Transaction → Option Placing} {txs : List Transaction}
    (hobjects : stateObjects E.p = true)
    (hplace : ∀ s tx s', place s tx = some s' →
      Grows E s s' ∧ tx.sender ∈ s'.1.springAddrShard)
    (h : ensureSendersPlaced E place s txs = some s') :
    Grows E s s' ∧ Covered E txs s' := by
  obtain ⟨hgrows, hmem⟩ := foldlM_grows id (fun tx addr => Places E.p tx.sender addr) (fun s tx s' he => by
      obtain ⟨hg, hm⟩ := hplace s tx s' he
      refine ⟨hg, ?_⟩
      rintro addr ⟨rfl, -⟩
      exact hm) h
  exact ⟨(springSeedIOTAnchorShards_grows hp s txs).trans hgrows,
    covered_of_seeded hp hobjects hgrows hmem⟩

/-- The number of the batch is counted. -/
theorem springTxBatchSeq_same (st : PlacementState) (n : ℕ) :
    SameTable st { st with springTxBatchSeq := n } := ⟨rfl, rfl, rfl⟩

theorem springPreparePlacementPPOBatch_spec (hp : 0 < E.p.shardNum) (hmode : SkipsEmpty E.p)
    {s s' : Placing} {txs : List Transaction} (hreal : springRealAccountsEnabled E.p = false)
    (h : springPreparePlacementPPOBatch E s txs = some s') : Grows E s s' ∧ Covered E txs s' := by
  unfold springPreparePlacementPPOBatch at h
  obtain ⟨r, hr, rfl⟩ := Option.map_eq_some_iff.mp h
  have hseq := (springTxBatchSeq_same s.1 (s.1.springTxBatchSeq + 1)).grows (E := E) s.2
  have hlast := (enqueue_same (E := E) r.1.1 (s.1.springTxBatchSeq + 1) r.2 txs).grows
    (E := E) r.1.2
  cases hiot : springIOTIdentityEnabled E.p with
  | true =>
    rw [if_pos hiot] at hr
    obtain ⟨hgrows, hmem⟩ := foldlM_grows Prod.fst (fun tx addr => Places E.p tx.sender addr)
      (fun s tx s' he => by
        obtain ⟨t, ht, rfl⟩ := Option.map_eq_some_iff.mp he
        obtain ⟨hg, hm⟩ := (springPlaceAddressPPOSequential_places ht).grows (E := E)
        refine ⟨hg, ?_⟩
        rintro addr ⟨rfl, hskip⟩
        exact hm (hskip hmode)) hr
    have hobjects : stateObjects E.p = true := by simp [stateObjects, hiot, hreal]
    refine ⟨((hseq.trans (springSeedIOTAnchorShards_grows hp _ txs)).trans hgrows).trans hlast, ?_⟩
    exact covered_of_seeded hp hobjects (hgrows.trans hlast)
      fun tx htx addr hpl => hlast.kept.mem (hmem tx htx addr hpl)
  | false =>
    rw [if_neg (by simp [hiot])] at hr
    obtain ⟨hgrows, hmem⟩ := foldlM_grows Prod.fst (fun e addr => Places E.p e.1 addr)
      (fun s e s' he => by
        obtain ⟨t, ht, rfl⟩ := Option.map_eq_some_iff.mp he
        obtain ⟨hg, hm⟩ := (springPlaceAddressPPOSequential_places ht).grows (E := E)
        refine ⟨hg, ?_⟩
        rintro addr ⟨rfl, hskip⟩
        exact hm (hskip hmode)) hr
    have hobjects : stateObjects E.p = false := by simp [stateObjects, hiot]
    refine ⟨(hseq.trans hgrows).trans hlast, ?_⟩
    exact covered_of_order hobjects fun e he addr hpl => hlast.kept.mem (hmem e he addr hpl)

theorem springPreparePlacementCandidateOnlyBatch_spec (hp : 0 < E.p.shardNum)
    (hmode : SkipsEmpty E.p) {s s' : Placing} {txs : List Transaction}
    (hreal : springRealAccountsEnabled E.p = false)
    (h : springPreparePlacementCandidateOnlyBatch E s txs = some s') :
    Grows E s s' ∧ Covered E txs s' := by
  unfold springPreparePlacementCandidateOnlyBatch at h
  have hseq := (springTxBatchSeq_same s.1 (s.1.springTxBatchSeq + 1)).grows (E := E) s.2
  cases hiot : springIOTIdentityEnabled E.p with
  | true =>
    rw [if_pos hiot] at h
    obtain ⟨hgrows, hmem⟩ := foldlM_grows id (fun tx addr => Places E.p tx.sender addr)
      (fun s tx s' he => by
        obtain ⟨hg, hm⟩ := (springPlaceAddressCandidateOnlySequential_places he).grows (E := E)
        refine ⟨hg, ?_⟩
        rintro addr ⟨rfl, hskip⟩
        exact hm (hskip hmode)) h
    have hobjects : stateObjects E.p = true := by simp [stateObjects, hiot, hreal]
    exact ⟨(hseq.trans (springSeedIOTAnchorShards_grows hp _ txs)).trans hgrows,
      covered_of_seeded hp hobjects hgrows hmem⟩
  | false =>
    rw [if_neg (by simp [hiot])] at h
    obtain ⟨hgrows, hmem⟩ := foldlM_grows id (fun e addr => Places E.p e.1 addr)
      (fun s e s' he => by
        obtain ⟨hg, hm⟩ := (springPlaceAddressCandidateOnlySequential_places he).grows (E := E)
        refine ⟨hg, ?_⟩
        rintro addr ⟨rfl, hskip⟩
        exact hm (hskip hmode)) h
    have hobjects : stateObjects E.p = false := by simp [stateObjects, hiot]
    exact ⟨hseq.trans hgrows, covered_of_order hobjects hmem⟩

/-- What a batch has to show. -/
def BatchSpec (E : SpringEnv H) (st : PlacementState) (txs : List Transaction) (s' : Placing) :
    Prop :=
  Grows E (st, ∅) s' ∧ (1 ≤ E.p.springMode → E.p.springMode ≤ 7 →
    ∀ tx ∈ txs, ∀ addr, Endpoint E tx addr → addr ∈ s'.2)

theorem batchSpec_filled {st : PlacementState} {txs : List Transaction} {r : Option Placing}
    {s' : Placing} (hr : ∀ t, r = some t → Grows E (st, ∅) t ∧ Covered E txs t)
    (h : r.map (fun t => springFillTouchedPlacement t txs) = some s') : BatchSpec E st txs s' := by
  obtain ⟨t, ht, rfl⟩ := Option.map_eq_some_iff.mp h
  obtain ⟨hgrows, hcovered⟩ := hr t ht
  obtain ⟨hfilled, hmem⟩ := filled_spec hgrows hcovered
  exact ⟨hfilled, fun _ _ => hmem⟩

/-- The baselines: over state objects the senders are placed, else both ends. -/
theorem batchSpec_baseline (hp : 0 < E.p.shardNum) {st : PlacementState} {txs : List Transaction}
    {s' : Placing} (hreal : springRealAccountsEnabled E.p = false)
    {place : Placing → Transaction → Option Placing}
    (hplace : ∀ s tx s', place s tx = some s' → Grows E s s' ∧ tx.sender ∈ s'.1.springAddrShard)
    (h : (if springIOTIdentityEnabled E.p then
        (ensureSendersPlaced E place (st, ∅) txs).map fun t => springFillTouchedPlacement t txs
      else (ensureBothPlaced E (st, ∅) txs).map fun t => springFillTouchedPlacement t txs) =
      some s') : BatchSpec E st txs s' := by
  split at h
  next hiot =>
    have hobjects : stateObjects E.p = true := by simp [stateObjects, hiot, hreal]
    exact batchSpec_filled (fun t ht => ensureSendersPlaced_spec hp hobjects hplace ht) h
  next hiot =>
    have hobjects : stateObjects E.p = false := by simp [stateObjects, hiot]
    exact batchSpec_filled (fun t ht => ensureBothPlaced_spec hobjects ht) h

/-- **One batch**: the table grows, and every end that is not skipped is in the placement. -/
theorem springPreparePlacement_spec (hp : 0 < E.p.shardNum) {st : PlacementState}
    {txs : List Transaction} {s' : Placing} (h : springPreparePlacement E st txs = some s') :
    BatchSpec E st txs s' := by
  unfold springPreparePlacement at h
  cases hreal : springRealAccountsEnabled E.p with
  | true =>
    rw [if_pos hreal] at h
    by_cases hmode : E.p.springMode = 0
    · rw [springPrepareRealAccountPlacement, if_pos hmode] at h
      cases h
      exact ⟨Grows.refl _, fun h1 => absurd hmode (by omega)⟩
    · obtain ⟨hgrows, hmem⟩ := springPrepareRealAccountPlacement_spec hreal hmode h
      exact ⟨hgrows, fun _ _ => hmem⟩
  | false =>
    rw [if_neg (by simp [hreal])] at h
    dsimp only at h
    split at h
    next hmode =>
      cases h
      exact ⟨Grows.refl _, fun h1 => absurd hmode (by omega)⟩
    · exact batchSpec_baseline hp hreal
        (fun s tx s' ht => (springEnsurePlacedWithBatchRelated_placesOne ht).grows) h
    next hmode =>
      exact batchSpec_filled
        (fun t ht => springPreparePlacementPPOBatch_spec hp (.inl hmode) hreal ht) h
    · exact batchSpec_baseline hp hreal
        (fun s tx s' ht => (springEnsurePlacedAnchorOnlyWithBatchRelated_placesOne ht).grows) h
    · exact batchSpec_baseline hp hreal
        (fun s tx s' ht => (springEnsurePlacedNSShardAdaptedWithBatchWeights_placesOne ht).grows) h
    next hmode =>
      exact batchSpec_filled
        (fun t ht => springPreparePlacementCandidateOnlyBatch_spec hp (.inr hmode) hreal ht) h
    · exact batchSpec_baseline hp hreal (fun s tx s' ht => (springEnsurePlaced_placesOne ht).grows) h
    · exact batchSpec_baseline hp hreal (fun s tx s' ht => (springEnsurePlaced_placesOne ht).grows) h
    next h0 h1 h2 h5 h6 h7 h3 h4 =>
      -- no mode of the parameters
      have hgrows := (foldlM_grows id (fun _ _ => False) (fun s e s' he =>
        ⟨((springEnsurePlaced_placesOne he).grows (E := E)).1, fun _ hf => hf.elim⟩) h).1
      refine ⟨hgrows, fun hlo hhi => absurd hhi ?_⟩
      grind

/-! ## Runs -/

/-- What changes the state that the placement works on. -/
inductive PlacementEvent
  /-- a batch is placed -/
  | batch (txs : List Transaction)
  /-- blocks are collected: `springStats` is as they left it -/
  | feedback (springStats : ℕ → List SpringBlockStat)

/-- One step; a call that panics is none. -/
def placementStep (E : SpringEnv H) (st : PlacementState) :
    PlacementEvent → Option PlacementState
  | .batch txs => (springPreparePlacement E st txs).map (·.1)
  | .feedback springStats => some { st with springStats := springStats }

theorem placementStep_grows (hp : 0 < E.p.shardNum) {st st' : PlacementState}
    {a : PlacementEvent} (h : placementStep E st a = some st') :
    (TableOk E st → TableOk E st') ∧ TableKept st st' := by
  cases a with
  | batch txs =>
    obtain ⟨s', hs', rfl⟩ := Option.map_eq_some_iff.mp h
    obtain ⟨hgrows, -⟩ := springPreparePlacement_spec hp hs'
    exact ⟨fun hok => (hgrows.ok ⟨hok, fun a n ha => by cases ha⟩).table, hgrows.kept⟩
  | feedback springStats =>
    cases h
    exact ⟨SameTable.tableOk ⟨rfl, rfl, rfl⟩, fun _ _ ha => ha⟩

theorem tableOk_new (p : SpringConfig) (hE : E.p = p) : TableOk E (.new p) where
  length := by simp [PlacementState.new, hE]
  range addr sid h := by cases h
  loads s := by
    rw [List.getD_eq_getElem?_getD]
    by_cases hs : s < p.shardNum
    · simp [PlacementState.new, placedOn, hs]
    · simp [PlacementState.new, placedOn, hs]
  seeded addr h := by cases h

theorem tableOk_of_reaches (hp : 0 < E.p.shardNum) {st : PlacementState}
    (hr : Reaches (placementStep E) (fun _ _ => True) (.new E.p) st) : TableOk E st :=
  hr.invariant (TableOk E) (tableOk_new E.p rfl)
    fun _ _ _ hok _ hs => (placementStep_grows hp hs).1 hok

theorem tableKept_of_reaches (hp : 0 < E.p.shardNum) {st st' : PlacementState}
    (hr : Reaches (placementStep E) (fun _ _ => True) st st') : TableKept st st' :=
  hr.invariant (TableKept st) (fun _ _ h => h)
    fun _ _ _ hk _ hs a n ha => (placementStep_grows hp hs).2 a n (hk a n ha)

/-- **The table over any run**: no entry changes, and every entry is a shard; the
counters count what the policy placed; and the placement of every batch has the ends of
its transactions, as they are in the table, but for those that the procedures skip. -/
theorem placement_table (E : SpringEnv H) (hp : 0 < E.p.shardNum) (hlo : 1 ≤ E.p.springMode)
    (hhi : E.p.springMode ≤ 7) {st : PlacementState}
    (hr : Reaches (placementStep E) (fun _ _ => True) (.new E.p) st) :
    (∀ addr sid, st.springAddrShard.lookup addr = some sid → sid < E.p.shardNum ∧
      ∀ st', Reaches (placementStep E) (fun _ _ => True) st st' →
        st'.springAddrShard.lookup addr = some sid) ∧
    (∀ s < E.p.shardNum, st.springShardLoad[s]? = some (placedOn st s)) ∧
    ∀ txs st' placement, springPreparePlacement E st txs = some (st', placement) →
      (∀ addr sid, placement.lookup addr = some sid →
        st'.springAddrShard.lookup addr = some sid) ∧
      ∀ tx ∈ txs, ∀ addr, Endpoint E tx addr →
        ∃ sid, placement.lookup addr = some sid ∧ st'.springAddrShard.lookup addr = some sid := by
  have hok := tableOk_of_reaches hp hr
  refine ⟨fun addr sid h => ⟨hok.range addr sid h, fun st' hr' =>
    tableKept_of_reaches hp hr' addr sid h⟩, fun s hs => ?_, fun txs st' placement hb => ?_⟩
  · have hload := hok.loads s
    have hlt : s < st.springShardLoad.length := by rw [hok.length]; exact hs
    rw [List.getD_eq_getElem?_getD, List.getElem?_eq_getElem hlt] at hload
    rw [List.getElem?_eq_getElem hlt, ← hload]
    rfl
  · obtain ⟨hgrows, hends⟩ := springPreparePlacement_spec hp hb
    have hok' : PlacingOk E (st', placement) := hgrows.ok ⟨hok, fun a n ha => by cases ha⟩
    refine ⟨hok'.batch, fun tx htx addr hend => ?_⟩
    obtain ⟨sid, hsid⟩ := Option.isSome_iff_exists.mp
      (AList.lookup_isSome.mpr (hends hlo hhi tx htx addr hend))
    exact ⟨sid, hsid, hok'.batch addr sid hsid⟩

/-! ## Two shards -/

/-- Candidate placement of raw addresses on two shards. -/
def tableEnv : SpringEnv FreeHash where
  hash := freeHash
  p := { SpringConfig.default 2 with
    springMode := 7
    springCandidateTopK := 0
    springIOTMode := 0
    springIOTIdentityMode := 0 }
  rows := fun _ => none
  log1p := id
  intn := fun _ _ => 0
  callPython := fun _ _ => none

/-- A transaction between two accounts. -/
def plainTransaction : Transaction :=
  newTransaction "00000000000000000000000000000000000000a0"
    "00000000000000000000000000000000000000b1" 5 0 [1]

/-- A transaction whose sender's cell was blank. -/
def blankTransaction : Transaction :=
  newTransaction "" "00000000000000000000000000000000000000b1" 5 0 [2]

/-- The first batch, at the table after it. -/
theorem placement_table_second : ∃ st placement,
    springPreparePlacement tableEnv (.new tableEnv.p) [plainTransaction] = some (st, placement) ∧
    st.springShardLoad[1]? = some (placedOn st 1) ∧
    ∃ sid, placement.lookup plainTransaction.recipient = some sid ∧
      st.springAddrShard.lookup plainTransaction.recipient = some sid := by
  obtain ⟨s, hs⟩ := Option.isSome_iff_exists.mp (by decide +kernel :
    (springPreparePlacement tableEnv (.new tableEnv.p) [plainTransaction]).isSome = true)
  have hstep : placementStep tableEnv (.new tableEnv.p) (.batch [plainTransaction]) = some s.1 := by
    rw [placementStep, hs]
    rfl
  obtain ⟨-, hload, -⟩ := placement_table tableEnv (by decide) (by decide) (by decide)
    (.tail .refl trivial hstep)
  obtain ⟨-, -, hbatch⟩ := placement_table tableEnv (by decide) (by decide) (by decide) .refl
  obtain ⟨-, hends⟩ := hbatch [plainTransaction] s.1 s.2 hs
  exact ⟨s.1, s.2, hs, hload 1 (by decide),
    hends plainTransaction (by simp) _ (.inr ⟨rfl, fun _ => by decide⟩)⟩

/-- A blank sender is skipped: the batch is placed, and has no shard for it. -/
theorem blank_sender_unplaced :
    ((springPreparePlacement tableEnv (.new tableEnv.p) [blankTransaction]).map fun s =>
      (s.2.lookup blankTransaction.sender, s.1.springAddrShard.lookup blankTransaction.sender)) =
      some (none, none) := by
  decide +kernel

end BlockEmulator
