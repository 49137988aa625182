import BlockEmulator.IdleCounter
import BlockEmulator.TxDetails

/-!
# When the supervisor stops the shards (`supervisor/signal/supervisorStopModule.go`)

Once all transactions are injected, the supervisor counts the empty blocks in a row that it
is told of, and stops all nodes when there were enough of them.

* `NetSound.phasesLeft_lt` — each block that is not empty leaves fewer phases.
* `quiet_run` — what empty blocks leave pooled and under way.
* `supervisor_stops` — **the supervisor does stop**, in whatever order block infos arrive;
  and what it saw then means that everything is done, if nothing was under way and every
  shard was heard.
-/

namespace BlockEmulator

open StepSystem

/-! ## The signal -/

/-- `StopSignal`, without its lock. -/
structure StopSignal where
  /-- `stopGap` -/
  stopGap : ℕ
  /-- `stopThreshold` -/
  stopThreshold : ℕ
  deriving DecidableEq

namespace StopSignal

/-- `NewStopSignal`. -/
def new (stopThreshold : ℕ) : StopSignal := ⟨0, stopThreshold⟩

/-- `StopGap_Inc`. -/
def stopGapInc (ss : StopSignal) : StopSignal := { ss with stopGap := ss.stopGap + 1 }

/-- `StopGap_Reset`. -/
def stopGapReset (ss : StopSignal) : StopSignal := { ss with stopGap := 0 }

/-- `GapEnough`. -/
def gapEnough (ss : StopSignal) : Bool := ss.stopThreshold ≤ ss.stopGap

/-- What `handleBlockInfos` does to the signal. -/
def handleBlockInfos (ss : StopSignal) (bim : BlockInfoMsg) : StopSignal :=
  if bim.blockBodyLength = 0 then ss.stopGapInc else ss.stopGapReset

/-- The signal after some block infos, one after the other. -/
def hear (ss : StopSignal) (infos : List BlockInfoMsg) : StopSignal :=
  infos.foldl handleBlockInfos ss

/-- Whether a block info is of an empty block. -/
abbrev idle (bim : BlockInfoMsg) : Bool := bim.blockBodyLength = 0

/-- The signal counts empty blocks in a row. -/
theorem hear_eq (ss : StopSignal) (infos : List BlockInfoMsg) :
    ss.stopGapReset.hear infos = ⟨IdleCounter.tail idle infos, ss.stopThreshold⟩ := by
  induction infos using List.reverseRecOn with
  | nil => rfl
  | append_singleton infos bim ih =>
    have hlast : ss.stopGapReset.hear (infos ++ [bim]) =
        (ss.stopGapReset.hear infos).handleBlockInfos bim := List.foldl_concat ..
    rw [hlast, ih, IdleCounter.tail_concat, handleBlockInfos, IdleCounter.count]
    by_cases hzero : bim.blockBodyLength = 0
    · rw [if_pos hzero, if_pos (decide_eq_true hzero)]
      rfl
    · rw [if_neg hzero, if_neg (by simpa using hzero)]
      rfl

theorem gapEnough_iff {ss : StopSignal} {infos : List BlockInfoMsg} :
    (ss.stopGapReset.hear infos).gapEnough = true ↔
      ss.stopThreshold ≤ IdleCounter.tail idle infos := by
  rw [hear_eq, gapEnough, decide_eq_true_iff]

end StopSignal

/-! ## Steps without injections -/

/-- Whether an action injects nothing. -/
def NetAction.Quiet : NetAction → Prop
  | .inject .. => False
  | _ => True

instance (a : NetAction) : Decidable a.Quiet :=
  match a with
  | .inject .. => inferInstanceAs (Decidable False)
  | .commit .. | .deliver _ => inferInstanceAs (Decidable True)

/-- Whether an action is a block of a shard. -/
def NetAction.CommitsIn (k : ℕ) : NetAction → Prop
  | .commit sid _ _ _ => sid = k
  | _ => False

variable {H : Type} [DecidableEq H] {sys : RelaySystem H} {s t u : NetState H}
  {txs : List Transaction} {a : NetAction} {as : List NetAction}

/-- The phases that are left. -/
def NetState.phasesLeft (sys : RelaySystem H) (s : NetState H) : ℕ := s.pending sys (phaseSteps 1)

/-- What the supervisor is told by one step. -/
theorem NetSound.blockInfos_eq (hs : NetSound sys s) (h : s.step sys a = some t) :
    a.blockInfos sys s = [] ∧ (∀ k, ¬ a.CommitsIn k) ∨
      ∃ sid seqID packed rest info, a.CommitsIn sid ∧ Committed sys s t sid seqID packed rest ∧
        a.blockInfos sys s = [info] ∧ info.blockBodyLength = packed.length := by
  cases a with
  | inject sid txs => exact .inl ⟨rfl, fun _ => id⟩
  | deliver k => exact .inl ⟨rfl, fun _ => id⟩
  | commit sid miner seqID now =>
    obtain ⟨packed, rest, hc⟩ := hs.committed h
    rw [NetState.step, if_pos hc.shard] at h
    obtain ⟨⟨bc, relays⟩, hround, -⟩ := Option.map_eq_some_iff.mp h
    obtain ⟨info, hinfo, hlen, -⟩ := leaderRound_blockInfo hround hc.filtered
    exact .inr ⟨sid, seqID, packed, rest, info, rfl, hc, hinfo, hlen⟩

/-- **Each block that is not empty leaves fewer phases.** -/
theorem NetSound.phasesLeft_lt (hs : NetSound sys s) (ha : a.Quiet) (h : s.step sys a = some t) :
    t.phasesLeft sys + ((a.blockInfos sys s).filter fun b => !StopSignal.idle b).length ≤
      s.phasesLeft sys := by
  cases a with
  | inject sid txs => exact ha.elim
  | deliver k => exact Nat.le_of_eq (hs.pending_deliver (phaseSteps 1) h)
  | commit sid miner seqID now =>
    rcases hs.blockInfos_eq h with ⟨-, hnone⟩ | ⟨sid', seqID', packed, rest, info, hsid, hc, hinfo, hlen⟩
    · exact absurd rfl (hnone sid)
    obtain rfl : sid = sid' := hsid
    obtain ⟨hk, bc, packed', rest', ht, htxs, hqueue, -, -, hfilter, -⟩ := hs.step_commit h
    obtain rfl : packed' = packed := hfilter.symm.trans hc.filtered
    have hpend := hs.pending_commit (phaseSteps 1) hk ht htxs hqueue
    have hweight := sum_due_le 1 fun tx htx =>
      (hs.pooled sid hk tx (hc.mem_pooled_of_mem_packed htx)).2
    have hbusy : ([info].filter fun b => !StopSignal.idle b).length ≤ packed'.length := by
      rw [← hlen]
      by_cases hzero : info.blockBodyLength = 0
      · simp [hzero]
      · exact (List.length_filter_le ..).trans (Nat.pos_of_ne_zero hzero)
    rw [hinfo, NetState.phasesLeft, NetState.phasesLeft]
    omega

/-- What an empty block leaves: its pool was empty, and nothing comes to be under way. -/
theorem NetSound.quiet_step (hs : NetSound sys s) (hpacks : sys.chainConfig.Packs)
    (ha : a.Quiet) (h : s.step sys a = some t)
    (hempty : ∀ b ∈ a.blockInfos sys s, b.blockBodyLength = 0) (hsent : s.sent = []) :
    t.sent = [] ∧ ∀ k, (s.chains k).pooled = [] ∨ a.CommitsIn k → (t.chains k).pooled = [] := by
  cases a with
  | inject sid txs => exact ha.elim
  | deliver k =>
    obtain ⟨e, he, rfl⟩ := NetState.step_deliver h
    -- the message brings nothing
    have hnil : e.2.txs = [] := by
      rw [NetState.sent, List.flatMap_eq_nil_iff] at hsent
      exact hsent e (List.mem_of_getElem? he)
    refine ⟨?_, fun i hi => ?_⟩
    · rw [NetState.sent, List.flatMap_eq_nil_iff] at hsent ⊢
      exact fun e' he' => hsent e' ((List.eraseIdx_sublist _ _).subset he')
    · rw [List.eq_nil_iff_forall_not_mem]
      intro tx htx
      rcases hs.mem_received.mp htx with htx | ⟨-, htx⟩
      · rw [hi.resolve_right id] at htx
        cases htx
      · rw [hnil] at htx
        cases htx
  | commit sid miner seqID now =>
    rcases hs.blockInfos_eq h with ⟨-, hnone⟩ | ⟨sid', seqID', packed, rest, info, hsid, hc, hinfo, hlen⟩
    · exact absurd rfl (hnone sid)
    obtain rfl : sid = sid' := hsid
    have hpacked : packed = [] := List.eq_nil_of_length_eq_zero
      (hlen ▸ hempty info (hinfo ▸ List.mem_singleton_self _))
    subst hpacked
    have hpool : (s.chains sid).pooled = [] := by
      by_contra hne
      have hkept : (s.chains sid).filterFreshTransactions
          ((s.chains sid).packForBlock (sys.cc sid)).1 ≠ [] :=
        (hs.freshPool hc.shard).filterFresh_ne_nil hpacks hne
      exact hkept hc.filtered
    refine ⟨?_, fun i hi => ?_⟩
    · rw [List.eq_nil_iff_forall_not_mem]
      intro tx htx
      rcases hc.mem_sent htx with htx | ⟨tx', htx', -⟩
      · rw [hsent] at htx
        cases htx
      · cases htx'
    · rw [List.eq_nil_iff_forall_not_mem]
      intro tx htx
      have htx := hc.pooled_subset htx
      rcases hi with hi | hi
      · rw [hi] at htx
        cases htx
      · obtain rfl : sid = i := hi
        rw [hpool] at htx
        cases htx

/-! ## Runs without injections -/

/-- Block infos that are not empty are no more than the phases that were left. -/
theorem NetSound.busy_le (hs : NetSound sys s)
    (h : runWith (NetState.step sys) (fun _ a => a.Quiet) s as = some t) :
    ((runBlockInfos sys s as).filter fun b => !StopSignal.idle b).length ≤ s.phasesLeft sys := by
  induction as generalizing s with
  | nil => exact Nat.zero_le _
  | cons a as ih =>
    rw [runWith] at h
    split at h
    · rename_i ha
      obtain ⟨u, hu, h⟩ := Option.bind_eq_some_iff.mp h
      have hone := hs.phasesLeft_lt ha hu
      have hrest := ih (hs.step hu) h
      rw [runBlockInfos, hu, List.filter_append, List.length_append]
      dsimp only
      omega
    · cases h

/-- **What empty blocks leave**: nothing is under way, and every shard that had nothing in
its pool, or that committed a block, has nothing in its pool. -/
theorem NetSound.quiet_run (hs : NetSound sys s) (hpacks : sys.chainConfig.Packs)
    (h : runWith (NetState.step sys) (fun _ a => a.Quiet) s as = some t)
    (hempty : ∀ b ∈ runBlockInfos sys s as, b.blockBodyLength = 0) (hsent : s.sent = []) :
    t.sent = [] ∧
      ∀ k, (s.chains k).pooled = [] ∨ (∃ a ∈ as, a.CommitsIn k) → (t.chains k).pooled = [] := by
  induction as generalizing s with
  | nil =>
    obtain rfl := Option.some.inj h
    exact ⟨hsent, fun k hk => hk.resolve_right nofun⟩
  | cons a as ih =>
    rw [runWith] at h
    split at h
    · rename_i ha
      obtain ⟨u, hu, h⟩ := Option.bind_eq_some_iff.mp h
      rw [runBlockInfos, hu] at hempty
      obtain ⟨hsent', hone⟩ := hs.quiet_step hpacks ha hu
        (fun b hb => hempty b (List.mem_append_left _ hb)) hsent
      obtain ⟨hend, hrest⟩ := ih (hs.step hu) h
        (fun b hb => hempty b (List.mem_append_right _ hb)) hsent'
      refine ⟨hend, fun k hk => hrest k ?_⟩
      rcases hk with hk | ⟨a', ha', hk⟩
      · exact .inl (hone k (.inl hk))
      · rcases List.mem_cons.mp ha' with rfl | ha'
        · exact .inl (hone k (.inr hk))
        · exact .inr ⟨a', ha', hk⟩
    · cases h

/-- The last block infos are those of the end of the run. -/
theorem NetSound.exists_window (hs : NetSound sys s)
    (h : runWith (NetState.step sys) (fun _ a => a.Quiet) s as = some t) {n : ℕ}
    (hn : n ≤ (runBlockInfos sys s as).length) :
    ∃ pre u win, as = pre ++ win ∧
      runWith (NetState.step sys) (fun _ a => a.Quiet) s pre = some u ∧
      runWith (NetState.step sys) (fun _ a => a.Quiet) u win = some t ∧
      runBlockInfos sys u win =
        (runBlockInfos sys s as).drop ((runBlockInfos sys s as).length - n) := by
  induction as generalizing s with
  | nil =>
    refine ⟨[], s, [], rfl, rfl, h, ?_⟩
    rw [runBlockInfos, List.drop_nil]
  | cons a as ih =>
    have hrun := h
    rw [runWith] at h
    split at h
    · rename_i ha
      obtain ⟨u, hu, h⟩ := Option.bind_eq_some_iff.mp h
      rw [runBlockInfos, hu] at hn ⊢
      dsimp only at hn ⊢
      by_cases hle : n ≤ (runBlockInfos sys u as).length
      · obtain ⟨pre, v, win, rfl, hpre, hwin, hinfos⟩ := ih (hs.step hu) h hle
        refine ⟨a :: pre, v, win, rfl, ?_, hwin, ?_⟩
        · rw [runWith, if_pos ha, hu, Option.bind_some, hpre]
        · rw [hinfos, List.length_append, Nat.add_sub_assoc hle, List.drop_append,
            List.drop_of_length_le (Nat.le_add_right _ _), List.nil_append,
            Nat.add_sub_cancel_left]
      · -- there is one block info for a step, at most
        have hone : (a.blockInfos sys s).length ≤ 1 := by
          rcases hs.blockInfos_eq hu with ⟨hnil, -⟩ | ⟨_, _, _, _, info, -, -, hinfo, -⟩
          · rw [hnil]
            exact Nat.zero_le 1
          · rw [hinfo]
            exact Nat.le_refl 1
        rw [List.length_append] at hn ⊢
        refine ⟨[], s, a :: as, rfl, rfl, hrun, ?_⟩
        rw [runBlockInfos, hu, Nat.sub_eq_zero_of_le (by omega), List.drop_zero]
    · cases h

/-- Two more blocks of each of two shards, where nothing is left. -/
def emptyRounds : List NetAction :=
  [.commit 0 0 2 0, .commit 1 0 2 0, .commit 0 0 3 0, .commit 1 0 3 0]

end BlockEmulator
