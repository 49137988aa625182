import BlockEmulator.BoundedBins
import BlockEmulator.Fallible
import BlockEmulator.PlacementTable

/-!
# The capacity of the shards in placement mode 6

Mode 6 puts an address on a related shard that is not full, and otherwise on the shard
with the least load. Full is what has its part of all addresses that the policy placed,
the next one counted in. The table keeps its entries in the order of their writing, the
last one first, so that it is also the history of the placements.

* `policyPlacements` — that history.
* `springChooseShardNSShardAdaptedFromSenderPos_room` — the chosen shard has room.
* `CapacityOk` — the invariant; one lemma for each write, and the loops.
* `nsShard_capacity` — after every placement of every run.
-/

namespace BlockEmulator

open StepSystem BoundedBins Fallible

variable {H : Type} {E : SpringEnv H}

/-- The shards of the addresses that the policy placed, in the order of the placements. -/
def policyPlacements (st : PlacementState) : List ℕ :=
  ((st.springAddrShard.entries.filter fun e => e.1 ∉ st.seeded).map (·.2)).reverse

/-! ## The chosen shard -/

/-- No score is above the best one. -/
theorem bestOf_max {α : Type} [LinearOrder α] {score : ℕ → Option α} {n sid : ℕ} {s b : α}
    (hsid : sid < n) (hs : score sid = some s) (hb : (bestOf score n).2 = some b) : s ≤ b := by
  induction n generalizing b with
  | zero => omega
  | succ n ih =>
    rw [bestOf_succ] at hb
    by_cases hlast : sid = n
    · subst hlast
      rcases hbest : (bestOf score sid).2 with _ | b'
      · simp only [hs, hbest, Option.some.injEq] at hb
        exact hb.le
      · simp only [hs, hbest] at hb
        split at hb
        · exact (Option.some.inj hb).le
        next hle =>
          obtain rfl := Option.some.inj (hbest.symm.trans hb)
          exact not_lt.mp hle
    · have hbefore : sid < n := by omega
      rcases hn : score n with _ | s'
      · rw [hn] at hb
        exact ih hbefore hb
      · obtain ⟨b', hbest⟩ := Option.isSome_iff_exists.mp
          (bestOf_isSome hbefore (by rw [hs]; rfl : (score sid).isSome))
        simp only [hn, hbest] at hb
        split at hb
        next hgt =>
          obtain rfl := Option.some.inj hb
          exact (ih hbefore hbest).trans hgt.le
        · exact ih hbefore hb

/-- No shard has less than the one of `springChooseShardMinState`. -/
theorem springChooseShardMinState_least {st : PlacementState}
    (hlength : st.springShardLoad.length = E.p.shardNum) :
    ∀ load ∈ st.springShardLoad,
      st.springShardLoad.getD (springChooseShardMinState E st) 0 ≤ load := by
  intro load hload
  obtain ⟨sid, hsid, rfl⟩ := List.mem_iff_getElem.mp hload
  rw [hlength] at hsid
  have hsome : (bestOf (fun sid => some (-(st.springShardLoad.getD sid 0 : ℤ)))
      E.p.shardNum).2.isSome := bestOf_isSome hsid rfl
  obtain ⟨b, hb⟩ := Option.isSome_iff_exists.mp hsome
  have hmax : -(st.springShardLoad.getD sid 0 : ℤ) ≤ b := by
    refine bestOf_max hsid ?_ hb
    rfl
  obtain ⟨-, hbest⟩ := bestOf_eq_some _ _ hb
  have hvalue : -(st.springShardLoad.getD (springChooseShardMinState E st) 0 : ℤ) = b :=
    Option.some.inj hbest
  have hload : st.springShardLoad.getD sid 0 = st.springShardLoad[sid] := by
    rw [List.getD_eq_getElem?_getD, List.getElem?_eq_getElem]
    rfl
  omega

/-- The limit, for a factor of at least one. -/
theorem springNSShardCapacityLimit_eq {st : PlacementState}
    (hfactor : 1 ≤ E.p.springNSShardCapacityFactor) :
    springNSShardCapacityLimit E st =
      share E.p.springNSShardCapacityFactor E.p.shardNum (st.springShardLoad.sum + 1) := by
  unfold springNSShardCapacityLimit share
  rw [if_neg hfactor.not_gt]
  split
  next hzero => simp [hzero]
  next => dsimp only; split <;> omega

/-- A shard with a score has room. -/
theorem springNSShardCapacityScore_pos {st : PlacementState} {sid capacityLimit : ℕ}
    (h : 0 < springNSShardCapacityScore st sid capacityLimit) :
    st.springShardLoad.getD sid 0 < capacityLimit := by
  unfold springNSShardCapacityScore at h
  split at h
  · exact absurd h (lt_irrefl 0)
  next hlimit =>
    by_contra hfull
    have hlimit' : (0 : ℚ) < capacityLimit := by positivity
    have hratio : (1 : ℚ) ≤ (st.springShardLoad.getD sid 0 : ℚ) / capacityLimit := by
      rw [le_div_iff₀ hlimit', one_mul]
      exact_mod_cast not_lt.mp hfull
    have hscore : springClamp (1 - (st.springShardLoad.getD sid 0 : ℚ) / capacityLimit) 0 1 ≤ 0 := by
      unfold springClamp
      split
      · exact le_rfl
      · rw [if_neg (by linarith)]
        linarith
    exact absurd h (not_lt.mpr hscore)

/-- **The chosen shard has room** for one more address. -/
theorem springChooseShardNSShardAdaptedFromSenderPos_room {st : PlacementState} {addr : Address}
    {senderPos : List ℚ} {relatedKnown : Bool} {sid : ℕ}
    (hlength : st.springShardLoad.length = E.p.shardNum)
    (hfactor : 1 ≤ E.p.springNSShardCapacityFactor)
    (h : springChooseShardNSShardAdaptedFromSenderPos E st addr senderPos relatedKnown = sid)
    (hsid : sid < st.springShardLoad.length) :
    st.springShardLoad.getD sid 0 <
      share E.p.springNSShardCapacityFactor E.p.shardNum (st.springShardLoad.sum + 1) := by
  have hshards : 0 < E.p.shardNum := by omega
  have hleast : st.springShardLoad.getD (springChooseShardMinState E st) 0 <
      share E.p.springNSShardCapacityFactor E.p.shardNum (st.springShardLoad.sum + 1) := by
    apply lt_share hfactor hshards
    rw [← hlength]
    exact mul_le_sum_of_least (springChooseShardMinState_least hlength)
  unfold springChooseShardNSShardAdaptedFromSenderPos at h
  split at h
  · rw [← h]
    exact hleast
  · -- a best shard with a score has room, and only such a one is chosen
    dsimp only at h
    split at h
    · rw [← h]
      exact hleast
    next b hb =>
      split at h
      · rw [← h]
        exact hleast
      next hscore =>
        rw [← h, ← springNSShardCapacityLimit_eq hfactor]
        refine List.foldlRecOn (motive := fun best : Option NSShardBest => ∀ b, best = some b →
          0 < b.bestScore →
            st.springShardLoad.getD b.bestSid 0 < springNSShardCapacityLimit E st)
          _ _ (fun b hb => by cases hb) ?_ b hb (not_le.mp hscore)
        intro best ih sid _ b hb hpos
        have hchosen : ∀ b : NSShardBest, 0 < senderPos.getD sid 0 →
            some (NSShardBest.mk sid (senderPos.getD sid 0 * springNSShardCapacityScore st sid
              (springNSShardCapacityLimit E st)) (senderPos.getD sid 0)
              (st.springShardLoad.getD sid 0)) = some b → 0 < b.bestScore →
            st.springShardLoad.getD b.bestSid 0 < springNSShardCapacityLimit E st := by
          rintro b hrelated hb hpos
          obtain rfl := Option.some.inj hb
          exact springNSShardCapacityScore_pos ((mul_pos_iff_of_pos_left hrelated).mp hpos)
        split at hb
        · exact ih b hb hpos
        next hrelated =>
          have hrelated := not_le.mp hrelated
          split at hb
          · exact hchosen b hrelated hb hpos
          · split at hb
            · exact hchosen b hrelated hb hpos
            · exact ih b hb hpos

/-! ## The invariant -/

/-- The history of the placements is that of the counters, and no shard ever had more than
its part. -/
structure CapacityOk (E : SpringEnv H) (st : PlacementState) : Prop where
  /-- one counter for each shard -/
  length : st.springShardLoad.length = E.p.shardNum
  /-- an anchor is in the table -/
  seeded : ∀ addr ∈ st.seeded, addr ∈ st.springAddrShard
  /-- a counter is the number of placements on the shard -/
  loads : ∀ s, st.springShardLoad.getD s 0 = (policyPlacements st).count s
  /-- every placement is counted -/
  total : st.springShardLoad.sum = (policyPlacements st).length
  /-- the limit, after every placement -/
  within : WithinLimit (share E.p.springNSShardCapacityFactor E.p.shardNum) (policyPlacements st)

theorem CapacityOk.new (E : SpringEnv H) : CapacityOk E (.new E.p) where
  length := by simp [PlacementState.new]
  seeded addr h := by cases h
  loads s := by
    rw [List.getD_eq_getElem?_getD]
    by_cases hs : s < E.p.shardNum
    · simp [PlacementState.new, policyPlacements, hs]
    · simp [PlacementState.new, policyPlacements, hs]
  total := by simp [PlacementState.new, policyPlacements]
  within := .nil _

theorem SameTable.policyPlacements {st st' : PlacementState} (h : SameTable st st') :
    policyPlacements st' = policyPlacements st := by
  rw [BlockEmulator.policyPlacements, h.table, h.seeded]
  rfl

theorem CapacityOk.same {st st' : PlacementState} (hok : CapacityOk E st)
    (h : SameTable st st') : CapacityOk E st' where
  length := by rw [h.load]; exact hok.length
  seeded := by rw [h.seeded, h.table]; exact hok.seeded
  loads := by rw [h.load, h.policyPlacements]; exact hok.loads
  total := by rw [h.load, h.policyPlacements]; exact hok.total
  within := by rw [h.policyPlacements]; exact hok.within

/-- The sum of the counters, one of which is moved. -/
theorem sum_modify_succ {loads : List ℕ} {sid : ℕ} (h : sid < loads.length) :
    (loads.modify sid (· + 1)).sum = loads.sum + 1 := by
  induction loads generalizing sid with
  | nil => simp at h
  | cons load loads ih =>
    cases sid with
    | zero => simp; omega
    | succ sid =>
      have := ih (Nat.lt_of_succ_lt_succ h)
      simp [this]
      omega

/-- **A shard with room takes one more address.** -/
theorem CapacityOk.commit (hfactor : 1 ≤ E.p.springNSShardCapacityFactor) {s s' : Placing}
    {addr : Address} {sid : ℕ} (hok : CapacityOk E s.1)
    (hnew : s.1.springAddrShard.lookup addr = none)
    (hroom : sid < s.1.springShardLoad.length → s.1.springShardLoad.getD sid 0 <
      share E.p.springNSShardCapacityFactor E.p.shardNum (s.1.springShardLoad.sum + 1))
    (h : commitPlacement s addr sid = some s') : CapacityOk E s'.1 := by
  unfold commitPlacement at h
  split at h
  next hsid =>
    obtain rfl := Option.some.inj h
    have hnew : addr ∉ s.1.springAddrShard := AList.lookup_eq_none.mp hnew
    have hunseeded : addr ∉ s.1.seeded := fun ha => hnew (hok.seeded addr ha)
    have hhistory : policyPlacements
        { s.1 with
          springAddrShard := s.1.springAddrShard.insert addr sid
          springShardLoad := s.1.springShardLoad.modify sid (· + 1) } =
          policyPlacements s.1 ++ [sid] := by
      simp only [policyPlacements, AList.entries_insert_of_notMem hnew]
      rw [List.filter_cons_of_pos (by simpa using hunseeded), List.map_cons, List.reverse_cons]
    refine ⟨?_, ?_, fun n => ?_, ?_, ?_⟩
    · simpa using hok.length
    · exact fun a ha => (AList.mem_insert _).mpr (.inr (hok.seeded a ha))
    · rw [hhistory, List.count_append, List.count_singleton, ← hok.loads n]
      rw [List.getD_eq_getElem?_getD, List.getD_eq_getElem?_getD, List.getElem?_modify]
      by_cases hn : sid = n
      · subst hn
        simp [List.getElem?_eq_getElem hsid]
      · simp [hn]
    · rw [hhistory, List.length_append, List.length_singleton, ← hok.total]
      exact sum_modify_succ hsid
    · rw [hhistory]
      apply hok.within.append (share_mono (by linarith) _)
      rw [← hok.loads, ← hok.total]
      exact hroom hsid
  next => cases h

/-- An anchor is not counted. -/
theorem CapacityOk.seedAnchor {s : Placing} (hok : CapacityOk E s.1) (anchor : Address) :
    CapacityOk E (seedAnchor E s anchor).1 := by
  unfold BlockEmulator.seedAnchor
  split
  · exact hok
  · split
    · exact hok
    next hnew =>
      have hnew : anchor ∉ s.1.springAddrShard := AList.lookup_eq_none.mp hnew
      have hothers : ∀ e ∈ s.1.springAddrShard.entries, e.1 ≠ anchor := by
        rintro e he rfl
        exact hnew (AList.mem_keys.mpr (List.mem_map_of_mem he))
      have hhistory : policyPlacements
          { s.1 with
            springAddrShard := s.1.springAddrShard.insert anchor (E.addr2Shard anchor)
            seeded := anchor :: s.1.seeded } = policyPlacements s.1 := by
        simp only [policyPlacements, AList.entries_insert_of_notMem hnew]
        rw [List.filter_cons_of_neg (by simp)]
        congr 2
        apply List.filter_congr
        intro e he
        simp [hothers e he]
      refine ⟨hok.length, fun a ha => ?_, fun n => ?_, ?_, ?_⟩
      · rcases List.mem_cons.mp ha with rfl | ha
        · exact (AList.mem_insert _).mpr (.inl rfl)
        · exact (AList.mem_insert _).mpr (.inr (hok.seeded a ha))
      · exact (hok.loads n).trans (by rw [hhistory])
      · exact hok.total.trans (by rw [hhistory])
      · exact hhistory ▸ hok.within

/-! ## The procedures -/

theorem springEnsurePlaced_capacityOk (hmode : E.p.springMode = 6)
    (hfactor : 1 ≤ E.p.springNSShardCapacityFactor) {s s' : Placing} {addr related : Address}
    (hok : CapacityOk E s.1) (h : springEnsurePlaced E s addr related = some s') :
    CapacityOk E s'.1 := by
  unfold springEnsurePlaced at h
  rw [hmode] at h
  split at h
  next =>
    obtain rfl := Option.some.inj h
    exact hok
  next hnew =>
    exact hok.commit hfactor hnew
      (springChooseShardNSShardAdaptedFromSenderPos_room hok.length hfactor rfl) h

theorem springEnsurePlacedNSShardAdaptedWithBatchWeights_capacityOk
    (hfactor : 1 ≤ E.p.springNSShardCapacityFactor) {s s' : Placing} {addr related : Address}
    {weights : WeightMap} (hok : CapacityOk E s.1)
    (h : springEnsurePlacedNSShardAdaptedWithBatchWeights E s addr related weights = some s') :
    CapacityOk E s'.1 := by
  unfold springEnsurePlacedNSShardAdaptedWithBatchWeights at h
  split at h
  next =>
    obtain rfl := Option.some.inj h
    exact hok
  next hnew =>
    exact hok.commit hfactor hnew
      (springChooseShardNSShardAdaptedFromSenderPos_room hok.length hfactor rfl) h

theorem placeReal_capacityOk (hmode : E.p.springMode = 6)
    (hfactor : 1 ≤ E.p.springNSShardCapacityFactor) {B : RealBatch}
    {s s' : Placing × List SpringTrainAction} {e : Address × Address} (hok : CapacityOk E s.1.1)
    (h : placeReal E B s e = some s') : CapacityOk E s'.1.1 := by
  unfold placeReal at h
  rw [hmode] at h
  obtain ⟨scene, -, h⟩ := Option.bind_eq_some_iff.mp h
  obtain ⟨vector, -, h⟩ := Option.bind_eq_some_iff.mp h
  obtain ⟨t, ht, rfl⟩ := Option.map_eq_some_iff.mp h
  exact springEnsurePlacedNSShardAdaptedWithBatchWeights_capacityOk hfactor hok ht

theorem springSeedIOTAnchorShards_capacityOk {s : Placing} (hok : CapacityOk E s.1)
    (txs : List Transaction) : CapacityOk E (springSeedIOTAnchorShards E s txs).1 :=
  List.foldlRecOn (motive := fun s : Placing => CapacityOk E s.1) _ _ hok
    fun _ hs anchor _ => hs.seedAnchor anchor

theorem springFillTouchedPlacement_fst (s : Placing) (txs : List Transaction) :
    (springFillTouchedPlacement s txs).1 = s.1 := by
  refine List.foldlRecOn (motive := fun t : Placing => t.1 = s.1) _ _ rfl ?_
  intro t ht addr _
  unfold fillTouched
  split
  · exact ht
  · exact ht

/-! ## One batch, and runs -/

theorem springPrepareRealAccountPlacement_capacityOk (hmode : E.p.springMode = 6)
    (hfactor : 1 ≤ E.p.springNSShardCapacityFactor) {st : PlacementState}
    {txs : List Transaction} {s' : Placing} (hok : CapacityOk E st)
    (h : springPrepareRealAccountPlacement E st txs = some s') : CapacityOk E s'.1 := by
  unfold springPrepareRealAccountPlacement at h
  rw [if_neg (by omega)] at h
  split at h
  · cases h
  · obtain ⟨scenes, -, h⟩ := Option.bind_eq_some_iff.mp h
    obtain ⟨r, hr, rfl⟩ := Option.map_eq_some_iff.mp h
    rw [springFillTouchedPlacement_fst, if_neg (by omega)]
    exact foldlM_keeps (P := fun s : Placing × List SpringTrainAction => CapacityOk E s.1.1)
      (fun s e s' hs he => placeReal_capacityOk hmode hfactor hs he) hr
      (hok.same (springTxBatchSeq_same st _))

theorem springPreparePlacement_capacityOk (hmode : E.p.springMode = 6)
    (hfactor : 1 ≤ E.p.springNSShardCapacityFactor) {st : PlacementState}
    {txs : List Transaction} {s' : Placing} (hok : CapacityOk E st)
    (h : springPreparePlacement E st txs = some s') : CapacityOk E s'.1 := by
  unfold springPreparePlacement at h
  rw [hmode] at h
  split at h
  · exact springPrepareRealAccountPlacement_capacityOk hmode hfactor hok h
  · change (if springIOTIdentityEnabled E.p = true then _ else _) = some s' at h
    split at h
    all_goals
      obtain ⟨t, ht, rfl⟩ := Option.map_eq_some_iff.mp h
      rw [springFillTouchedPlacement_fst]
    · exact foldlM_keeps (P := fun s : Placing => CapacityOk E s.1)
        (fun s tx s' hs hp =>
          springEnsurePlacedNSShardAdaptedWithBatchWeights_capacityOk hfactor hs hp) ht
        (springSeedIOTAnchorShards_capacityOk hok txs)
    · exact foldlM_keeps (P := fun s : Placing => CapacityOk E s.1)
        (fun s e s' hs hp => springEnsurePlaced_capacityOk hmode hfactor hs hp) ht hok

/-- **The capacity of the shards in mode 6**: the history of the placements is what the
counters count, and after each of them no shard has more than its part of all addresses
placed so far. -/
theorem nsShard_capacity (E : SpringEnv H) (hmode : E.p.springMode = 6)
    (hfactor : 1 ≤ E.p.springNSShardCapacityFactor) {st : PlacementState}
    (hr : Reaches (placementStep E) (fun _ _ => True) (.new E.p) st) :
    (∀ s < E.p.shardNum, st.springShardLoad[s]? = some ((policyPlacements st).count s)) ∧
      st.springShardLoad.sum = (policyPlacements st).length ∧
      ∀ k ≤ (policyPlacements st).length, ∀ s < E.p.shardNum,
        ((policyPlacements st).take k).count s ≤
          max 1 ⌈(k : ℚ) * E.p.springNSShardCapacityFactor / E.p.shardNum⌉₊ := by
  have hok : CapacityOk E st := by
    refine hr.invariant (CapacityOk E) (.new E) ?_
    rintro st (txs | stats) st' hok - hs
    · obtain ⟨s', hs', rfl⟩ := Option.map_eq_some_iff.mp hs
      exact springPreparePlacement_capacityOk hmode hfactor hok hs'
    · obtain rfl := Option.some.inj hs
      exact hok.same ⟨rfl, rfl, rfl⟩
  refine ⟨fun s hs => ?_, hok.total, fun k hk s _ => hok.within k hk s⟩
  have hlt : s < st.springShardLoad.length := by rw [hok.length]; exact hs
  have hload := hok.loads s
  rw [List.getD_eq_getElem?_getD, List.getElem?_eq_getElem hlt] at hload
  rw [List.getElem?_eq_getElem hlt]
  exact congrArg some hload

/-- Mode 6 over raw addresses on two shards, each of which takes half of them. -/
def nsShardEnv : SpringEnv FreeHash :=
  { tableEnv with p := { tableEnv.p with springMode := 6, springNSShardCapacityFactor := 1 } }

/-- The two ends of a transaction: the shard of the first is full for the second. -/
theorem nsShard_capacity_two : ∃ st,
    placementStep nsShardEnv (.new nsShardEnv.p) (.batch [plainTransaction]) = some st ∧
    policyPlacements st = [0, 1] ∧
    ((policyPlacements st).take 2).count 0 ≤
      max 1 ⌈((2 : ℕ) : ℚ) * nsShardEnv.p.springNSShardCapacityFactor / nsShardEnv.p.shardNum⌉₊ := by
  have hrun : (placementStep nsShardEnv (.new nsShardEnv.p) (.batch [plainTransaction])).any
      (fun st => decide (policyPlacements st = [0, 1])) = true := by
    decide +kernel
  obtain ⟨st, hst, hhistory⟩ := (Option.any_eq_true _ _).mp hrun
  have hhistory := of_decide_eq_true hhistory
  obtain ⟨-, -, hwithin⟩ := nsShard_capacity nsShardEnv (by decide) (by decide)
    (.tail .refl trivial hst)
  exact ⟨st, hst, hhistory, hwithin 2 (by rw [hhistory]; decide) 0 (by decide)⟩

end BlockEmulator
