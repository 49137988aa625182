import BlockEmulator.SpringReward

/-!
# The supervisor's feedback loop (`HandleBlockInfo`)

Every committed block reports to the supervisor. The blocks of one height are an epoch:
when the last of the `ShardNum` shards has reported its block of an epoch, the epoch is
evaluated, and what is kept of epochs more than ten below is deleted.

A shard reports its blocks in the order of their heights. So when an epoch is complete,
every shard is past it: no message for that epoch or for one below can follow, and
nothing that a deletion could touch is looked at again.

* `FeedbackSound` — what the maps hold at the epochs that are not deleted.
* `FeedbackSound.step` — **one message keeps it**, and evaluates its epoch exactly when
  it completes it.
* `feedback_once` — **each complete epoch is evaluated once**, in increasing order, on
  the statistics that its `ShardNum` messages carry.
* `feedbackRecords_eq` — the counters and the file hold what the evaluations produced.
-/

namespace BlockEmulator

/-! ## The state and the handler -/

/-- The part of `RelayCommitteeModule` that `HandleBlockInfo` works on. -/
structure FeedbackState where
  /-- `springStats`: the last five blocks of each shard, the newest last -/
  springStats : ℕ → List SpringBlockStat
  /-- `springEpochFeedback` -/
  springEpochFeedback : ℕ → Option ShardStats
  /-- `springRewardedEpoch`: `false` where there is no entry -/
  springRewardedEpoch : ℕ → Bool
  /-- `springRewardCount` -/
  springRewardCount : ℕ
  /-- `springCrossRateSum` -/
  springCrossRateSum : ℚ
  /-- `springRewardSum` -/
  springRewardSum : ℚ
  /-- `springNormVarSum` -/
  springNormVarSum : ℚ
  /-- the lines of `spring_io/feedback_records.jsonl` -/
  feedbackRecords : List SpringFeedbackRewardRecord

/-- `NewRelayCommitteeModule`. -/
def FeedbackState.new : FeedbackState where
  springStats := fun _ => []
  springEpochFeedback := fun _ => none
  springRewardedEpoch := fun _ => false
  springRewardCount := 0
  springCrossRateSum := 0
  springRewardSum := 0
  springNormVarSum := 0
  feedbackRecords := []

/-- One call of `springBuildFeedbackRewardRecord`: what it was given and what
`HandleBlockInfo` made of its result. -/
structure Evaluation where
  /-- the epoch -/
  epoch : ℕ
  /-- the statistics of the shards -/
  shardStats : ShardStats
  /-- the record, if there was one; the online update works on it -/
  record : Option SpringFeedbackRewardRecord

section

variable (p : SpringConfig) (rows : SceneRows) (exp : ℚ → ℚ)

namespace FeedbackState

/-- `arr = append(arr, stat)`, cut to the last five. -/
def pushStat (st : FeedbackState) (sid : ℕ) (stat : SpringBlockStat) : FeedbackState :=
  let arr := st.springStats sid ++ [stat]
  let arr := arr.drop (arr.length - 5)
  { st with springStats := Function.update st.springStats sid arr }

/-- The entry of a block in `springEpochFeedback`, whose inner map is made on
demand. -/
def collect (st : FeedbackState) (epoch sid : ℕ) (stat : SpringBlockStat) : FeedbackState :=
  let m := (st.springEpochFeedback epoch).getD ∅
  { st with
    springEpochFeedback := Function.update st.springEpochFeedback epoch (some (m.insert sid stat)) }

/-- What `HandleBlockInfo` does with a record: the running averages, the counters and
the file. -/
def addRecord (st : FeedbackState) (record : SpringFeedbackRewardRecord) :
    FeedbackState × SpringFeedbackRewardRecord :=
  let count := st.springRewardCount + 1
  let crossRateSum := st.springCrossRateSum + record.crossRate
  let rewardSum := st.springRewardSum + record.reward
  let normVarSum := st.springNormVarSum + record.normalizedLoadVariance
  let record :=
    { record with
      rewardedEpochCount := count
      runningAvgCrossRate := crossRateSum / count
      runningAvgReward := rewardSum / count
      runningAvgNormVar := normVarSum / count }
  ({ st with
      springRewardCount := count
      springCrossRateSum := crossRateSum
      springRewardSum := rewardSum
      springNormVarSum := normVarSum
      feedbackRecords := st.feedbackRecords ++ [record] },
    record)

/-- The evaluation of an epoch. -/
def evaluate (st : FeedbackState) (epoch : ℕ) (shardStats : ShardStats) :
    FeedbackState × Option SpringFeedbackRewardRecord :=
  match springBuildFeedbackRewardRecord p exp epoch shardStats with
  | none => (st, none)
  | some record =>
    let r := st.addRecord record
    (r.1, some r.2)

/-- The rewarded mark, and the deletion of what is more than ten epochs old. -/
def markRewarded (st : FeedbackState) (epoch : ℕ) : FeedbackState :=
  let old : ℕ → Prop := fun oldEpoch => (oldEpoch : ℤ) < (epoch : ℤ) - 10
  { st with
    springEpochFeedback := fun e => if old e then none else st.springEpochFeedback e
    springRewardedEpoch := fun e =>
      if old e then false else Function.update st.springRewardedEpoch epoch true e }

@[simp] theorem pushStat_feedback (st : FeedbackState) (sid : ℕ) (stat : SpringBlockStat) :
    (st.pushStat sid stat).springEpochFeedback = st.springEpochFeedback := rfl

@[simp] theorem pushStat_rewarded (st : FeedbackState) (sid : ℕ) (stat : SpringBlockStat) :
    (st.pushStat sid stat).springRewardedEpoch = st.springRewardedEpoch := rfl

theorem collect_feedback (st : FeedbackState) (epoch sid : ℕ) (stat : SpringBlockStat) :
    (st.collect epoch sid stat).springEpochFeedback =
      Function.update st.springEpochFeedback epoch
        (some (((st.springEpochFeedback epoch).getD ∅).insert sid stat)) := rfl

@[simp] theorem collect_rewarded (st : FeedbackState) (epoch sid : ℕ) (stat : SpringBlockStat) :
    (st.collect epoch sid stat).springRewardedEpoch = st.springRewardedEpoch := rfl

@[simp] theorem evaluate_feedback (st : FeedbackState) (epoch : ℕ) (m : ShardStats) :
    (st.evaluate p exp epoch m).1.springEpochFeedback = st.springEpochFeedback := by
  rw [evaluate]; split <;> rfl

@[simp] theorem evaluate_rewarded (st : FeedbackState) (epoch : ℕ) (m : ShardStats) :
    (st.evaluate p exp epoch m).1.springRewardedEpoch = st.springRewardedEpoch := by
  rw [evaluate]; split <;> rfl

@[simp] theorem markRewarded_feedback (st : FeedbackState) (epoch e : ℕ) :
    (st.markRewarded epoch).springEpochFeedback e =
      if (e : ℤ) < (epoch : ℤ) - 10 then none else st.springEpochFeedback e := rfl

@[simp] theorem markRewarded_rewarded (st : FeedbackState) (epoch e : ℕ) :
    (st.markRewarded epoch).springRewardedEpoch e =
      if (e : ℤ) < (epoch : ℤ) - 10 then false
      else Function.update st.springRewardedEpoch epoch true e := rfl

end FeedbackState

/-- `HandleBlockInfo`, with the evaluation it makes, if any. -/
def handleBlockInfo (st : FeedbackState) (b : BlockInfoMsg) :
    FeedbackState × Option Evaluation :=
  let stat := springBlockStat p rows b
  let st := st.pushStat b.senderShardID stat
  let st := st.collect b.epoch b.senderShardID stat
  let m := (st.springEpochFeedback b.epoch).getD ∅
  if m.keys.card = p.shardNum ∧ st.springRewardedEpoch b.epoch = false then
    let r := st.evaluate p exp b.epoch m
    (r.1.markRewarded b.epoch, some ⟨b.epoch, m, r.2⟩)
  else (st, none)

/-- The messages of a log, one after the other, with the evaluations in their order. -/
def handleBlockInfos (st : FeedbackState) : List BlockInfoMsg → FeedbackState × List Evaluation
  | [] => (st, [])
  | b :: bs =>
    let r := handleBlockInfo p rows exp st b
    let rs := handleBlockInfos r.1 bs
    (rs.1, r.2.toList ++ rs.2)

end

/-! ## Runs -/

variable {p : SpringConfig} {rows : SceneRows} {exp : ℚ → ℚ}

theorem handleBlockInfos_append (st : FeedbackState) (bs bs' : List BlockInfoMsg) :
    handleBlockInfos p rows exp st (bs ++ bs') =
      let r := handleBlockInfos p rows exp st bs
      let r' := handleBlockInfos p rows exp r.1 bs'
      (r'.1, r.2 ++ r'.2) := by
  induction bs generalizing st with
  | nil => simp [handleBlockInfos]
  | cons b bs ih => simp [handleBlockInfos, ih]

/-- Whether a shard has reported its block of an epoch. -/
def ReportedBy (log : List BlockInfoMsg) (sid epoch : ℕ) : Prop :=
  ∃ b ∈ log, b.senderShardID = sid ∧ b.epoch = epoch

instance (log : List BlockInfoMsg) (sid epoch : ℕ) : Decidable (ReportedBy log sid epoch) :=
  inferInstanceAs (Decidable (∃ b ∈ log, _))

/-- Whether an epoch is reported, and by all `ShardNum` shards. -/
def EpochComplete (p : SpringConfig) (log : List BlockInfoMsg) (epoch : ℕ) : Prop :=
  (∃ b ∈ log, b.epoch = epoch) ∧ ∀ sid < p.shardNum, ReportedBy log sid epoch

/-- The messages come from the shards, and from each in the order of the heights of
its blocks, without repetition. -/
structure HeightOrder (p : SpringConfig) (log : List BlockInfoMsg) : Prop where
  /-- the senders are shards -/
  shard : ∀ b ∈ log, b.senderShardID < p.shardNum
  /-- the heights increase -/
  increasing : ∀ sid, ((log.filter (·.senderShardID = sid)).map (·.epoch)).Pairwise (· < ·)

/-- The statistics that a log has for an epoch. -/
def CollectedFrom (p : SpringConfig) (rows : SceneRows) (log : List BlockInfoMsg) (epoch : ℕ)
    (m : ShardStats) : Prop :=
  ∀ sid stat, m.lookup sid = some stat ↔
    ∃ b ∈ log, b.senderShardID = sid ∧ b.epoch = epoch ∧ springBlockStat p rows b = stat

variable {log : List BlockInfoMsg} {b : BlockInfoMsg} {e : ℕ} {m : ShardStats}

theorem ReportedBy.append (h : ReportedBy log sid e) (b : BlockInfoMsg) :
    ReportedBy (log ++ [b]) sid e := by
  obtain ⟨b', hb', hs⟩ := h
  exact ⟨b', List.mem_append_left _ hb', hs⟩

theorem EpochComplete.append (h : EpochComplete p log e) (b : BlockInfoMsg) :
    EpochComplete p (log ++ [b]) e := by
  obtain ⟨⟨b', hb', he⟩, hall⟩ := h
  exact ⟨⟨b', List.mem_append_left _ hb', he⟩, fun sid hsid => (hall sid hsid).append b⟩

/-- A message completes no epoch but its own. -/
theorem EpochComplete.of_append (h : EpochComplete p (log ++ [b]) e) (hne : e ≠ b.epoch) :
    EpochComplete p log e := by
  -- a message that witnesses something about `e` is not the last one
  have hback : ∀ b' ∈ log ++ [b], b'.epoch = e → b' ∈ log := by
    intro b' hb' he
    rcases List.mem_append.mp hb' with hb' | hb'
    · exact hb'
    · obtain rfl := List.mem_singleton.mp hb'
      exact absurd he.symm hne
  obtain ⟨⟨b', hb', he⟩, hall⟩ := h
  refine ⟨⟨b', hback b' hb' he, he⟩, fun sid hsid => ?_⟩
  obtain ⟨b₁, hb₁, hs, he₁⟩ := hall sid hsid
  exact ⟨b₁, hback b₁ hb₁ he₁, hs, he₁⟩

namespace HeightOrder

theorem init (h : HeightOrder p (log ++ [b])) : HeightOrder p log := by
  refine ⟨fun b' hb' => h.shard b' (List.mem_append_left _ hb'), fun sid => ?_⟩
  have hinc := h.increasing sid
  rw [List.filter_append, List.map_append] at hinc
  exact (List.pairwise_append.mp hinc).1

/-- The newest message of a shard is above all its earlier ones. -/
theorem lt_last (h : HeightOrder p (log ++ [b])) {b' : BlockInfoMsg} (hb' : b' ∈ log)
    (hs : b'.senderShardID = b.senderShardID) : b'.epoch < b.epoch := by
  have hinc := h.increasing b.senderShardID
  rw [List.filter_append, List.map_append] at hinc
  refine (List.pairwise_append.mp hinc).2.2 b'.epoch ?_ b.epoch (by simp)
  exact List.mem_map.mpr ⟨b', List.mem_filter.mpr ⟨hb', by simpa using hs⟩, rfl⟩

/-- What is complete is below what can still be reported: the sender of the message
has reported it. -/
theorem complete_lt (h : HeightOrder p (log ++ [b])) (he : EpochComplete p log e) :
    e < b.epoch := by
  have hsid := h.shard b (List.mem_append_right _ List.mem_cons_self)
  obtain ⟨b', hb', hs, rfl⟩ := he.2 b.senderShardID hsid
  exact h.lt_last hb' hs

end HeightOrder

/-! ### What the maps hold -/

namespace CollectedFrom

theorem append_iff (hne : b.epoch ≠ e) :
    CollectedFrom p rows (log ++ [b]) e m ↔ CollectedFrom p rows log e m := by
  refine forall₂_congr fun sid stat => iff_congr Iff.rfl ⟨?_, ?_⟩
  · rintro ⟨b', hb', hs, he, hstat⟩
    rcases List.mem_append.mp hb' with hb' | hb'
    · exact ⟨b', hb', hs, he, hstat⟩
    · obtain rfl := List.mem_singleton.mp hb'
      exact absurd he hne
  · rintro ⟨b', hb', hs⟩
    exact ⟨b', List.mem_append_left _ hb', hs⟩

/-- The entry of the newest message; its shard has no older one. -/
theorem insert (h : CollectedFrom p rows log b.epoch m) (ho : HeightOrder p (log ++ [b])) :
    CollectedFrom p rows (log ++ [b]) b.epoch
      (m.insert b.senderShardID (springBlockStat p rows b)) := by
  intro sid stat
  by_cases hsid : sid = b.senderShardID
  · subst hsid
    rw [Finmap.lookup_insert]
    constructor
    · rintro ⟨⟩
      exact ⟨b, List.mem_append_right _ List.mem_cons_self, rfl, rfl, rfl⟩
    · rintro ⟨b', hb', hs, he, rfl⟩
      rcases List.mem_append.mp hb' with hb' | hb'
      · exact absurd he (ho.lt_last hb' hs).ne
      · rw [List.mem_singleton.mp hb']
  · rw [Finmap.lookup_insert_of_ne _ hsid, h sid stat]
    constructor
    · rintro ⟨b', hb', hs⟩
      exact ⟨b', List.mem_append_left _ hb', hs⟩
    · rintro ⟨b', hb', hs, he, hstat⟩
      rcases List.mem_append.mp hb' with hb' | hb'
      · exact ⟨b', hb', hs, he, hstat⟩
      · rw [List.mem_singleton.mp hb'] at hs
        exact absurd hs.symm hsid

theorem mem_keys (h : CollectedFrom p rows log e m) {sid : ℕ} :
    sid ∈ m.keys ↔ ReportedBy log sid e := by
  rw [Finmap.mem_keys, Finmap.mem_iff]
  constructor
  · rintro ⟨stat, hstat⟩
    obtain ⟨b', hb', hs, he, -⟩ := (h sid stat).mp hstat
    exact ⟨b', hb', hs, he⟩
  · rintro ⟨b', hb', hs, he⟩
    exact ⟨_, (h sid _).mpr ⟨b', hb', hs, he, rfl⟩⟩

/-- `len(m) == ShardNum` says that the epoch is complete. -/
theorem card_eq_iff (h : CollectedFrom p rows log e m) (ho : HeightOrder p log)
    (hne : ∃ b ∈ log, b.epoch = e) : m.keys.card = p.shardNum ↔ EpochComplete p log e := by
  have hsub : m.keys ⊆ Finset.range p.shardNum := by
    intro sid hsid
    obtain ⟨b', hb', rfl, -⟩ := h.mem_keys.mp hsid
    exact Finset.mem_range.mpr (ho.shard b' hb')
  constructor
  · intro hcard
    have heq : m.keys = Finset.range p.shardNum :=
      Finset.eq_of_subset_of_card_le hsub (by rw [Finset.card_range, hcard])
    refine ⟨hne, fun sid hsid => h.mem_keys.mp ?_⟩
    rw [heq]
    exact Finset.mem_range.mpr hsid
  · intro hc
    have heq : m.keys = Finset.range p.shardNum := by
      refine hsub.antisymm fun sid hsid => ?_
      exact h.mem_keys.mpr (hc.2 sid (Finset.mem_range.mp hsid))
    rw [heq, Finset.card_range]

end CollectedFrom

/-- What the maps and the evaluations so far say about the log. Nothing is said about
the maps at an epoch that lies more than ten below a complete one. -/
structure FeedbackSound (p : SpringConfig) (rows : SceneRows) (log : List BlockInfoMsg)
    (st : FeedbackState) (evs : List Evaluation) : Prop where
  /-- `springEpochFeedback` is what was reported -/
  feedback : ∀ e, (∀ e', EpochComplete p log e' → e' ≤ e + 10) →
    CollectedFrom p rows log e ((st.springEpochFeedback e).getD ∅)
  /-- `springRewardedEpoch` marks what is complete -/
  rewarded : ∀ e, (∀ e', EpochComplete p log e' → e' ≤ e + 10) →
    (st.springRewardedEpoch e = true ↔ EpochComplete p log e)
  /-- the evaluations are in order -/
  increasing : (evs.map (·.epoch)).Pairwise (· < ·)
  /-- they are those of the complete epochs -/
  evaluated : ∀ e, e ∈ evs.map (·.epoch) ↔ EpochComplete p log e
  /-- on the statistics of the epoch -/
  stats : ∀ ev ∈ evs, CollectedFrom p rows log ev.epoch ev.shardStats

namespace FeedbackSound

theorem new : FeedbackSound p rows [] .new [] where
  feedback e _ sid stat := by simp [FeedbackState.new]
  rewarded e _ := by simp [FeedbackState.new, EpochComplete]
  increasing := by simp
  evaluated e := by simp [EpochComplete]
  stats := by simp

variable {st : FeedbackState} {evs : List Evaluation}

/-- The maps after the message has been entered, before anything is evaluated. -/
theorem feedback_collect (hs : FeedbackSound p rows log st evs)
    (ho : HeightOrder p (log ++ [b])) (e : ℕ)
    (he : ∀ e', EpochComplete p (log ++ [b]) e' → e' ≤ e + 10) :
    CollectedFrom p rows (log ++ [b]) e
      (((st.pushStat b.senderShardID (springBlockStat p rows b)).collect b.epoch b.senderShardID
        (springBlockStat p rows b)).springEpochFeedback e |>.getD ∅) := by
  have hold := hs.feedback e fun e' hc => he e' (hc.append b)
  by_cases heq : e = b.epoch
  · subst heq
    rw [FeedbackState.collect_feedback, Function.update_self, Option.getD_some]
    exact hold.insert ho
  · rw [FeedbackState.collect_feedback, Function.update_of_ne heq]
    exact (CollectedFrom.append_iff (Ne.symm heq)).mpr hold

/-- Until the message came its epoch was neither complete nor marked. -/
theorem not_rewarded (hs : FeedbackSound p rows log st evs)
    (ho : HeightOrder p (log ++ [b])) : st.springRewardedEpoch b.epoch = false := by
  rw [← Bool.not_eq_true, hs.rewarded b.epoch fun e' hc => by have := ho.complete_lt hc; omega]
  intro hc
  exact (ho.complete_lt hc).false

/-- **One message keeps it.** -/
theorem step (hs : FeedbackSound p rows log st evs) (ho : HeightOrder p (log ++ [b])) :
    FeedbackSound p rows (log ++ [b]) (handleBlockInfo p rows exp st b).1
      (evs ++ (handleBlockInfo p rows exp st b).2.toList) := by
  have hmem : ∃ b' ∈ log ++ [b], b'.epoch = b.epoch :=
    ⟨b, List.mem_append_right _ List.mem_cons_self, rfl⟩
  -- no complete epoch is above the one of the message
  have hle : ∀ e', EpochComplete p (log ++ [b]) e' → e' ≤ b.epoch := by
    intro e' hc
    by_cases heq : e' = b.epoch
    · exact heq.le
    · exact (ho.complete_lt (hc.of_append heq)).le
  have hcollect := hs.feedback_collect ho
  have hm := hcollect b.epoch fun e' hc => (hle e' hc).trans (by omega)
  have hcard := hm.card_eq_iff ho hmem
  have hfresh := hs.not_rewarded ho
  have hstats : ∀ ev ∈ evs, CollectedFrom p rows (log ++ [b]) ev.epoch ev.shardStats := by
    intro ev hev
    have hc := (hs.evaluated ev.epoch).mp (List.mem_map_of_mem hev)
    exact (CollectedFrom.append_iff (ho.complete_lt hc).ne').mpr (hs.stats ev hev)
  rw [handleBlockInfo]
  dsimp only
  split
  · rename_i hdo
    have hc : EpochComplete p (log ++ [b]) b.epoch := hcard.mp hdo.1
    refine ⟨fun e he => ?_, fun e he => ?_, ?_, fun e => ?_, ?_⟩
    -- what is deleted is too old to be spoken of
    · have hold : ¬((e : ℤ) < (b.epoch : ℤ) - 10) := by have := he b.epoch hc; omega
      simpa [hold] using hcollect e he
    · have hold : ¬((e : ℤ) < (b.epoch : ℤ) - 10) := by have := he b.epoch hc; omega
      by_cases heq : e = b.epoch
      · subst heq
        simp [hold, hc]
      · have hback : EpochComplete p (log ++ [b]) e ↔ EpochComplete p log e :=
          ⟨fun h => h.of_append heq, fun h => h.append b⟩
        rw [hback, ← hs.rewarded e fun e' hc' => he e' (hc'.append b)]
        simp [hold, heq]
    · rw [List.map_append, List.pairwise_append]
      refine ⟨hs.increasing, by simp, fun e he e' he' => ?_⟩
      obtain rfl : e' = b.epoch := by simpa using he'
      exact ho.complete_lt ((hs.evaluated e).mp he)
    · rw [List.map_append, List.mem_append, hs.evaluated]
      constructor
      · rintro (h | h)
        · exact h.append b
        · obtain rfl : e = b.epoch := by simpa using h
          exact hc
      · intro h
        by_cases heq : e = b.epoch
        · exact .inr (by simp [heq])
        · exact .inl (h.of_append heq)
    · intro ev hev
      rcases List.mem_append.mp hev with hev | hev
      · exact hstats ev hev
      · obtain rfl := List.mem_singleton.mp hev
        exact hm
  · rename_i hdo
    have hc : ¬EpochComplete p (log ++ [b]) b.epoch := fun hc => hdo ⟨hcard.mpr hc, hfresh⟩
    have hback : ∀ e, EpochComplete p (log ++ [b]) e ↔ EpochComplete p log e := fun e =>
      ⟨fun h => h.of_append fun heq => hc (heq ▸ h), fun h => h.append b⟩
    refine ⟨hcollect, fun e he => ?_, ?_, fun e => ?_, ?_⟩
    · rw [hback]
      exact hs.rewarded e fun e' hc' => he e' (hc'.append b)
    · simpa using hs.increasing
    · rw [hback, ← hs.evaluated]
      simp
    · simpa using hstats

/-- A whole log. -/
theorem of_log (ho : HeightOrder p log) :
    FeedbackSound p rows log (handleBlockInfos p rows exp .new log).1
      (handleBlockInfos p rows exp .new log).2 := by
  induction log using List.reverseRecOn with
  | nil => exact new
  | append_singleton log b ih =>
    rw [handleBlockInfos_append]
    simpa [handleBlockInfos] using (ih ho.init).step ho

end FeedbackSound

/-! ## The evaluations -/

/-- **Every epoch is evaluated once**: in a log in which each shard's messages come in
the order of its heights, an epoch is evaluated exactly once if all `ShardNum` shards
have reported it, and else not at all; the evaluations come in increasing order; and
each is of the statistics in the `ShardNum` messages of its epoch, one for each shard. -/
theorem feedback_once (p : SpringConfig) (rows : SceneRows) (exp : ℚ → ℚ)
    (log : List BlockInfoMsg) (ho : HeightOrder p log) :
    let evs := (handleBlockInfos p rows exp .new log).2
    (∀ b ∈ log, (∀ sid < p.shardNum, ReportedBy log sid b.epoch) →
        (evs.map (·.epoch)).count b.epoch = 1) ∧
      (evs.map (·.epoch)).Pairwise (· < ·) ∧
      ∀ ev ∈ evs, (∀ sid < p.shardNum, ReportedBy log sid ev.epoch) ∧
        ev.shardStats.keys = Finset.range p.shardNum ∧
        ∀ b ∈ log, b.epoch = ev.epoch →
          ev.shardStats.lookup b.senderShardID = some (springBlockStat p rows b) := by
  intro evs
  have hs : FeedbackSound p rows log _ evs := .of_log ho
  refine ⟨fun b hb hall => ?_, hs.increasing, fun ev hev => ?_⟩
  · have hmem : b.epoch ∈ evs.map (·.epoch) := (hs.evaluated _).mpr ⟨⟨b, hb, rfl⟩, hall⟩
    exact List.count_eq_one_of_mem (hs.increasing.imp ne_of_lt) hmem
  · have hc : EpochComplete p log ev.epoch := (hs.evaluated _).mp (List.mem_map_of_mem hev)
    have hfrom := hs.stats ev hev
    refine ⟨hc.2, ?_, fun b hb he => (hfrom _ _).mpr ⟨b, hb, rfl, he, rfl⟩⟩
    ext sid
    rw [hfrom.mem_keys, Finset.mem_range]
    constructor
    · rintro ⟨b, hb, rfl, -⟩
      exact ho.shard b hb
    · exact hc.2 sid

/-- Two shards: the blocks of height one of both, and a second one of shard 0 between. -/
def twoShardLog : List BlockInfoMsg :=
  [⟨0, [], 1, [], [], 0⟩, ⟨0, [], 2, [], [], 0⟩, ⟨0, [], 1, [], [], 1⟩]

theorem feedback_once_two :
    ((handleBlockInfos (.default 2) (fun _ => none) id .new twoShardLog).2.map
      (·.epoch)).count 1 = 1 := by
  have ho : HeightOrder (.default 2) twoShardLog := by
    refine ⟨by decide, fun sid => ?_⟩
    by_cases h0 : sid = 0
    · subst h0
      decide
    by_cases h1 : sid = 1
    · subst h1
      decide
    · simp [twoShardLog, Ne.symm h0, Ne.symm h1]
  have honce := feedback_once (.default 2) (fun _ => none) id twoShardLog ho
  exact honce.1 ⟨0, [], 1, [], [], 0⟩ List.mem_cons_self (by decide)

/-! ## The file of records -/

/-- The counters are those of the records in the file. -/
structure FeedbackState.Tallied (st : FeedbackState) : Prop where
  /-- their number -/
  count : st.springRewardCount = st.feedbackRecords.length
  /-- their rewards -/
  reward : st.springRewardSum = (st.feedbackRecords.map (·.reward)).sum
  /-- their cross rates -/
  crossRate : st.springCrossRateSum = (st.feedbackRecords.map (·.crossRate)).sum
  /-- their load variances -/
  normVar : st.springNormVarSum = (st.feedbackRecords.map (·.normalizedLoadVariance)).sum

theorem FeedbackState.Tallied.addRecord {st : FeedbackState} (h : st.Tallied)
    (record : SpringFeedbackRewardRecord) : (st.addRecord record).1.Tallied where
  count := by simp [FeedbackState.addRecord, h.count]
  reward := by simp [FeedbackState.addRecord, h.reward]
  crossRate := by simp [FeedbackState.addRecord, h.crossRate]
  normVar := by simp [FeedbackState.addRecord, h.normVar]

theorem FeedbackState.Tallied.evaluate {st : FeedbackState} (h : st.Tallied) (epoch : ℕ)
    (shardStats : ShardStats) : (st.evaluate p exp epoch shardStats).1.Tallied := by
  rw [FeedbackState.evaluate]
  split
  · exact h
  · exact h.addRecord _

theorem evaluate_feedbackRecords (st : FeedbackState) (epoch : ℕ) (shardStats : ShardStats) :
    (st.evaluate p exp epoch shardStats).1.feedbackRecords =
      st.feedbackRecords ++ (st.evaluate p exp epoch shardStats).2.toList := by
  rw [FeedbackState.evaluate]
  split
  · simp
  · rfl

/-- One message: the file grows by the record of its evaluation. -/
theorem handleBlockInfo_tallied {st : FeedbackState} (h : st.Tallied) (b : BlockInfoMsg) :
    (handleBlockInfo p rows exp st b).1.Tallied ∧
      (handleBlockInfo p rows exp st b).1.feedbackRecords =
        st.feedbackRecords ++
          ((handleBlockInfo p rows exp st b).2.toList.filterMap (·.record)) := by
  -- entering the message in the maps touches none of it
  have hc : ((st.pushStat b.senderShardID (springBlockStat p rows b)).collect b.epoch
      b.senderShardID (springBlockStat p rows b)).Tallied := ⟨h.1, h.2, h.3, h.4⟩
  rw [handleBlockInfo]
  dsimp only
  split
  · have he : (FeedbackState.evaluate p exp _ b.epoch _).1.Tallied := hc.evaluate b.epoch
      (((st.pushStat b.senderShardID (springBlockStat p rows b)).collect b.epoch
        b.senderShardID (springBlockStat p rows b)).springEpochFeedback b.epoch |>.getD ∅)
    refine ⟨⟨he.1, he.2, he.3, he.4⟩, (evaluate_feedbackRecords _ _ _).trans ?_⟩
    simp [FeedbackState.collect, FeedbackState.pushStat, List.filterMap_cons]
    cases (FeedbackState.evaluate p exp _ _ _).2 <;> rfl
  · exact ⟨hc, by simp [FeedbackState.collect, FeedbackState.pushStat]⟩

/-- The counters and the file hold what the evaluations produced, whatever the log. -/
theorem feedbackRecords_eq (p : SpringConfig) (rows : SceneRows) (exp : ℚ → ℚ)
    (log : List BlockInfoMsg) :
    (handleBlockInfos p rows exp .new log).1.Tallied ∧
      (handleBlockInfos p rows exp .new log).1.feedbackRecords =
        (handleBlockInfos p rows exp .new log).2.filterMap (·.record) := by
  induction log using List.reverseRecOn with
  | nil => exact ⟨⟨rfl, rfl, rfl, rfl⟩, rfl⟩
  | append_singleton log b ih =>
    obtain ⟨htallied, hfile⟩ := ih
    have hstep : (handleBlockInfo p rows exp _ b).1.Tallied ∧ _ :=
      handleBlockInfo_tallied htallied b
    simp only [handleBlockInfos_append, handleBlockInfos, List.append_nil, List.filterMap_append]
    rw [← hfile]
    exact hstep

end BlockEmulator
