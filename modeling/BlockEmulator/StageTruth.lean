import BlockEmulator.ConsensusLocks

/-!
# The stage of a round

`pbftStage` says how far a node is in the round of its sequence number: 2 once it has
broadcast a Prepare, 3 once it has broadcast a Commit, 1 before. The handlers of votes add
one to it, the end of a round and `Propose` set it, and the recovery of old requests moves
the sequence number, and may vote, without it.

* `StageTrue` — what the stage says, by what the node has broadcast.
* `nodeStep_truthful` — a step of a node keeps its stage true exactly when it meets
  `StageKept`, a condition on the state before it.
* `stages_true_iff` — **the same for runs** of a relay shard without Byzantine nodes and
  without timeouts.
* `stage_lies` — a proposal that arrives twice, and the round of a leader as it usually goes.
-/

namespace BlockEmulator

open StepSystem PbftNode

variable {App R D In Out : Type}

/-! ## What the stage says -/

/-- Whether this is a Prepare for a sequence number. -/
def Output.isPrepare (n : ℕ) : Output R D Out → Bool
  | .send _ (.prepare m) => decide (m.seqID = n)
  | _ => false

/-- Whether this is a Commit for a sequence number. -/
def Output.isCommit (n : ℕ) : Output R D Out → Bool
  | .send _ (.commit m) => decide (m.seqID = n)
  | _ => false

/-- Whether a goroutine of `Propose` has taken the lock and not yet stored the stage. -/
def PbftNode.proposing (p : PbftNode App R D) : Bool :=
  decide (0 < p.proposers.locked + p.proposers.announced)

/-- **What the stage says**, at a node that has or has not broadcast a Prepare and a Commit
for its sequence number. -/
@[mk_iff]
structure StageTrue (p : PbftNode App R D) (prep com : Bool) : Prop where
  /-- a Prepare was broadcast -/
  prepared : prep = true → 2 ≤ p.pbftStage
  /-- a Commit was broadcast -/
  committed : 3 ≤ p.pbftStage ↔ com = true
  /-- neither was -/
  neither : prep = false → com = false → p.proposing = false → p.pbftStage = 1

/-- The stage of a node that runs is true, where no handler is in the middle of its work;
`prep` and `com` are the sequence numbers for which the node has voted. -/
def Truthful (p : PbftNode App R D) (prep com : ℕ → Bool) : Prop :=
  p.fault = none → p.asking = none → StageTrue p (prep p.sequenceID) (com p.sequenceID)

/-- Whether an input is neither a timeout nor a message of a view change. -/
def NodeInput.calm : NodeInput R D In → Bool
  | .viewChangePropose => false
  | .receive m => !m.isViewMessage
  | _ => true

/-! ## The condition -/

section
variable [DecidableEq D] (cfg : PbftConfig App R D In Out) (p : PbftNode App R D)

/-- Whether a PrePrepare is accepted, when it is handled. -/
def acceptsProposal (m : PrePrepare R D) : Bool :=
  decide (m.seqID = p.sequenceID) && decide (cfg.getDigest m.requestMsg = m.digest) &&
    decide (cfg.ihm.handleinPrePrepare p.curChain m.requestMsg = some true)

/-- Whether a Commit completes the quorum of a request that the node does not have and can
ask for. -/
def missesRequest (m : Commit D) : Bool :=
  decide (p.sequenceID ≤ m.seqID) &&
    ((set2DMap cfg p.cntCommitConfirm m.digest m.senderNode).any fun confirm =>
      decide (cfg.quorum ≤ (confirm m.digest).card)) &&
    !p.isReply m.digest && (p.requestPool m.digest).isNone && !p.askForLock

/-- Whether the end of a round unlocks no unlocked mutex. -/
def mayEndRound : Bool := !p.isMain cfg || p.sequenceLock.isSome

/-- Whether the node has not voted in its round, by its stage. -/
def stageFresh : Bool := decide (p.pbftStage = 1) || decide (p.pbftStage = 2) && p.proposing

/-- Whether old requests leave the node at the stage of its next round: it has not voted in
the last one, or votes in the next one as it had prepared the last. -/
def recoveryKept (m : SendOldMessage R) : Prop :=
  match cfg.ihm.handleforSequentialRequest p.curChain m with
  | none => True
  | some (false, app) => cfg.ihm.height app = cfg.ihm.height p.curChain ∨ stageFresh p = true
  | some (true, app) =>
    match (p.installed cfg m app).storedNext.map (cfg.ihm.handleinPrePrepare app) with
    | some none => True
    | some (some true) => p.pbftStage = 2
    | _ => stageFresh p = true

/-- The condition on what a node handles, for a node that has voted.

* A proposal is accepted in the first stage, or after the node has voted for it to be
  committed.
* `Propose` stores the stage after the node has handled the proposal, and before it votes
  for it to be committed.
* No quorum of Commits completes for a request that the node does not have.
* Old requests move the sequence number of a node that has not voted in its round; where
  they make it vote, it has prepared the round before. -/
def StageKept (prep com : ℕ → Bool) : NodeInput R D In → Prop
  | .proposeStage => p.asking = none →
      com p.sequenceID = false ∧
        (prep p.sequenceID = true ∨ 1 < p.proposers.locked + p.proposers.announced)
  | .receive (.prePrepare m) => acceptsProposal cfg p m = true →
      com p.sequenceID = true ∨ p.pbftStage = 1
  | .receive (.commit m) => missesRequest cfg p m = true → mayEndRound cfg p = false
  | .askForRequests => mayEndRound cfg p = true →
      prep p.sequenceID = false ∧ com p.sequenceID = false
  | .receive (.sendOld m) => p.asking = none → p.askForLock = true → recoveryKept cfg p m
  | _ => True

end

/-! ## One step of a node -/

/-- The votes of a node after some outputs. -/
def votesAfter (vote : ℕ → Output R D Out → Bool) (outs : List (Output R D Out))
    (voted : ℕ → Bool) (n : ℕ) : Bool :=
  outs.any (vote n) || voted n

/-- The stage is true after a step with some outputs. -/
def TruthfulAfter (prep com : ℕ → Bool) (r : PbftNode App R D × List (Output R D Out)) : Prop :=
  Truthful r.1 (votesAfter Output.isPrepare r.2 prep) (votesAfter Output.isCommit r.2 com)

@[simp] theorem votesAfter_nil (vote : ℕ → Output R D Out → Bool) (voted : ℕ → Bool) :
    votesAfter vote [] voted = voted := by
  funext n
  simp [votesAfter]

/-- Whether outputs contain no votes. -/
def NoVotes (outs : List (Output R D Out)) : Prop :=
  ∀ n, outs.any (Output.isPrepare n) = false ∧ outs.any (Output.isCommit n) = false

theorem noVotes_nil : NoVotes ([] : List (Output R D Out)) := fun _ => ⟨rfl, rfl⟩

/-- Without votes the node has voted as before. -/
theorem NoVotes.votesAfter_eq {outs : List (Output R D Out)} (houts : NoVotes outs) (prep com : ℕ → Bool) :
    votesAfter Output.isPrepare outs prep = prep ∧ votesAfter Output.isCommit outs com = com := by
  constructor
  · funext n
    rw [votesAfter, (houts n).1, Bool.false_or]
  · funext n
    rw [votesAfter, (houts n).2, Bool.false_or]

/-- Nobody has voted beyond the numbers that votes reach. -/
theorem not_voted_of_lt {voted : ℕ → Bool} {k n : ℕ} (hv : ∀ n, voted n = true → n ≤ k)
    (hn : k < n) : voted n = false := by
  rw [← Bool.not_eq_true]
  exact fun h => absurd (hv n h) (not_le.mpr hn)

namespace PbftNode

variable [DecidableEq D] {cfg : PbftConfig App R D In Out} {p p' : PbftNode App R D}
  {prep com : ℕ → Bool} {outs : List (Output R D Out)}

section
omit [DecidableEq D]

/-- A process that has ended has no stage. -/
theorem truthfulAfter_of_fault (h : p'.fault ≠ none) : TruthfulAfter prep com (p', outs) :=
  fun hfault => absurd hfault h

/-- Nothing that the stage speaks of changes. -/
theorem truthfulAfter_congr (h : Truthful p prep com) (hfault : p.fault = none)
    (houts : NoVotes outs) (hasking : p'.asking = none → p.asking = none)
    (hstage : p'.pbftStage = p.pbftStage) (hseq : p'.sequenceID = p.sequenceID)
    (hproposing : p.proposing = true → p'.proposing = true) :
    TruthfulAfter prep com (p', outs) := by
  intro _ hask
  obtain ⟨hprep, hcom, hneither⟩ := h hfault (hasking hask)
  dsimp only
  rw [(houts.votesAfter_eq prep com).1, (houts.votesAfter_eq prep com).2, hseq]
  refine ⟨hstage ▸ hprep, hstage ▸ hcom, fun h₁ h₂ hp => ?_⟩
  rw [hstage]
  refine hneither h₁ h₂ ?_
  rw [← Bool.not_eq_true] at hp ⊢
  exact fun h => hp (hproposing h)

end

/-- A proposal is handled. -/
theorem handlePrePrepare_truthful {m : PrePrepare R D} (hp : Truthful p prep com)
    (hfault : p.fault = none) (hstage : 1 ≤ p.pbftStage)
    (h : p.handlePrePrepare cfg m = some (p', outs)) :
    TruthfulAfter prep com (p', outs) ↔ StageKept cfg p prep com (.receive (.prePrepare m)) := by
  have hquiet : ∀ {r : PbftNode App R D × List (Output R D Out)}, TruthfulAfter prep com r →
      acceptsProposal cfg p m = false →
        (TruthfulAfter prep com r ↔ StageKept cfg p prep com (.receive (.prePrepare m))) :=
    fun hp' hno => iff_of_true hp' fun hyes => absurd (hno.symm.trans hyes) Bool.false_ne_true
  rw [handlePrePrepare] at h
  split at h
  · cases h
  rename_i hw
  have ha : p.asking = none := by simpa using (not_or.mp hw).1
  split at h
  · rename_i hlow
    cases h
    exact hquiet (truthfulAfter_congr hp hfault noVotes_nil id rfl rfl id)
      (by simp [acceptsProposal, hlow.ne])
  rename_i hlow
  split at h
  · rename_i hd
    cases h
    exact hquiet (truthfulAfter_congr hp hfault noVotes_nil id rfl rfl id) (by simp [acceptsProposal, hd])
  rename_i hd
  split at h
  · rename_i hhigh
    cases h
    exact hquiet (truthfulAfter_congr hp hfault noVotes_nil id rfl rfl id)
      (by simp [acceptsProposal, hhigh.ne'])
  rename_i hhigh
  have hseq : m.seqID = p.sequenceID := by omega
  split at h
  · rename_i hv
    cases h
    exact hquiet (truthfulAfter_of_fault (Option.some_ne_none _)) (by simp [acceptsProposal, hv])
  · rename_i hv
    cases h
    exact hquiet (truthfulAfter_congr hp hfault noVotes_nil id rfl rfl id) (by simp [acceptsProposal, hv])
  · rename_i hv
    cases h
    -- it is prepared: the stage moves on from the first, or is beyond the Commit
    have hyes : acceptsProposal cfg p m = true := by
      simp [acceptsProposal, hseq, not_not.mp hd, hv]
    obtain ⟨-, hcom, -⟩ := hp hfault ha
    simp only [TruthfulAfter, Truthful, StageKept, record, hfault, ha, stageTrue_iff, votesAfter,
      hyes, forall_const]
    simp only [List.any_cons, List.any_nil, Output.isPrepare, Output.isCommit, hseq, decide_true,
      Bool.or_false, Bool.true_or, Bool.false_or, reduceCtorEq, false_implies, and_true,
      forall_const, ← hcom]
    omega

omit [DecidableEq D] in
/-- A handler is in the middle of its work. -/
theorem truthfulAfter_of_asking (h : p'.asking ≠ none) : TruthfulAfter prep com (p', outs) :=
  fun _ hask => absurd hask h

omit [DecidableEq D] in
/-- A round begins in which the node has not voted. -/
theorem truthfulAfter_of_fresh (houts : NoVotes outs) (hstage : p'.pbftStage = 1)
    (hprep : prep p'.sequenceID = false) (hcom : com p'.sequenceID = false) :
    TruthfulAfter prep com (p', outs) := by
  intro _ _
  dsimp only
  rw [(houts.votesAfter_eq prep com).1, (houts.votesAfter_eq prep com).2, hprep, hcom]
  exact ⟨nofun, by simp [hstage], fun _ _ _ => hstage⟩

omit [DecidableEq D] in
/-- The end of a round unlocks an unlocked mutex, or goes well. -/
theorem endRound_fault (p : PbftNode App R D) :
    (p.endRound cfg).fault = if mayEndRound cfg p = true then p.fault else some .sequenceUnlock := by
  rw [endRound_eq, mayEndRound]
  cases p.isMain cfg <;> cases p.sequenceLock <;> rfl

omit [DecidableEq D] in
/-- A round ends for a node that asks for requests: it must not have voted in it. -/
theorem askForRequests_truthful (hfault : p.fault = none) (seqID : ℕ) :
    TruthfulAfter prep com (p.askForRequests cfg seqID) ↔
      (mayEndRound cfg p = true → prep p.sequenceID = false ∧ com p.sequenceID = false) := by
  have houts : NoVotes (p.askForRequests cfg seqID).2 := fun n => ⟨rfl, rfl⟩
  have hend : (p.askForRequests cfg seqID).1.fault =
      if mayEndRound cfg p = true then p.fault else some .sequenceUnlock := by
    rw [askForRequests, endRound_fault]
    rfl
  have hstage : (p.askForRequests cfg seqID).1.pbftStage = 1 := by
    rw [askForRequests, endRound_eq]
  have hseq : (p.askForRequests cfg seqID).1.sequenceID = p.sequenceID := by
    rw [askForRequests, endRound_eq]
  have hask : (p.askForRequests cfg seqID).1.asking = none := by
    rw [askForRequests, endRound_eq]
  generalize p.askForRequests cfg seqID = r at *
  by_cases hmay : mayEndRound cfg p = true
  · rw [if_pos hmay, hfault] at hend
    simp only [hmay, forall_const]
    constructor
    · intro h
      obtain ⟨hprep, hcom, -⟩ := h hend hask
      rw [(houts.votesAfter_eq prep com).1, hseq, hstage] at hprep
      rw [(houts.votesAfter_eq prep com).2, hseq, hstage] at hcom
      exact ⟨by simpa using hprep, by simpa using hcom⟩
    · rintro ⟨hprep, hcom⟩
      exact truthfulAfter_of_fresh houts hstage (hseq ▸ hprep) (hseq ▸ hcom)
  · rw [if_neg hmay] at hend
    exact iff_of_true (truthfulAfter_of_fault (hend ▸ Option.some_ne_none _)) fun h => absurd h hmay

/-- A vote to commit is handled. -/
theorem handleCommit_truthful {m : Commit D} (hp : Truthful p prep com) (hfault : p.fault = none)
    (hreach : ∀ n, prep n = true ∨ com n = true → n ≤ p.sequenceID)
    (h : p.handleCommit cfg m = some (p', outs)) :
    TruthfulAfter prep com (p', outs) ↔ StageKept cfg p prep com (.receive (.commit m)) := by
  have hquiet : ∀ {r : PbftNode App R D × List (Output R D Out)}, TruthfulAfter prep com r →
      missesRequest cfg p m = false →
        (TruthfulAfter prep com r ↔ StageKept cfg p prep com (.receive (.commit m))) :=
    fun hp' hno => iff_of_true hp' fun hyes => absurd (hno.symm.trans hyes) Bool.false_ne_true
  rw [handleCommit] at h
  split at h
  · cases h
  rename_i hw
  obtain ⟨hask, hst⟩ := not_or.mp hw
  have hask : p.asking = none := by simpa using hask
  split at h
  · rename_i hlow
    cases h
    exact hquiet (truthfulAfter_congr hp hfault noVotes_nil id rfl rfl id)
      (by simp [missesRequest, hlow.not_ge])
  rename_i hlow
  have hseq : p.sequenceID ≤ m.seqID := Nat.le_of_not_lt hlow
  have hst : 3 ≤ p.pbftStage := by
    by_contra hlt
    exact hst ⟨by omega, hseq⟩
  split at h
  · rename_i hc
    cases h
    exact hquiet (truthfulAfter_congr hp hfault noVotes_nil id rfl rfl id)
      (by simp [missesRequest, hc])
  rename_i confirm hc
  dsimp only at h
  split at h
  case isFalse =>
    rename_i hq
    cases h
    refine hquiet (truthfulAfter_congr hp hfault noVotes_nil id rfl rfl id) ?_
    rw [← Bool.not_eq_true]
    simp only [missesRequest, hc, Option.any_some, Bool.and_eq_true, decide_eq_true_iff,
      Bool.not_eq_true']
    exact fun h => hq ⟨h.1.1.1.2, h.1.1.2⟩
  rename_i hq
  split at h
  · rename_i hr
    split at h
    · rename_i hl
      cases h
      exact hquiet (truthfulAfter_of_asking (Option.some_ne_none _)) (by simp [missesRequest, hl])
    · -- it asks for requests after it has voted to commit
      rename_i hl
      have h := Option.some.inj h
      have hyes : missesRequest cfg p m = true := by
        simpa [missesRequest, hseq, hc, hr, hq.1, hq.2] using hl
      have hcom : com p.sequenceID = true := (hp hfault hask).committed.mp hst
      have hmay : mayEndRound cfg { p with cntCommitConfirm := confirm } = mayEndRound cfg p := rfl
      rw [← h, askForRequests_truthful (by exact hfault), StageKept, hmay]
      simp [hyes, hcom]
  · rename_i r hr
    have hno : missesRequest cfg p m = false := by simp [missesRequest, hr]
    split at h
    · cases h
      exact hquiet (truthfulAfter_of_fault (Option.some_ne_none _)) hno
    · cases h
      exact hquiet (truthfulAfter_congr hp hfault noVotes_nil id rfl rfl id) hno
    · rename_i app relays hi
      cases h
      -- the next round begins
      refine hquiet ?_ hno
      refine truthfulAfter_of_fresh (fun n => ?_) (by rw [endRound_eq]) ?_ ?_
      · simp [Output.isPrepare, Output.isCommit]
      · rw [endRound_eq]
        exact not_voted_of_lt (fun n h => hreach n (.inl h)) (Nat.lt_succ_self _)
      · rw [endRound_eq]
        exact not_voted_of_lt (fun n h => hreach n (.inr h)) (Nat.lt_succ_self _)

omit [DecidableEq D] in
/-- The sequence number moves to one for which the node has not voted. -/
theorem truthfulAfter_of_moved (houts : NoVotes outs) (hfault : p'.fault = none)
    (hasking : p'.asking = none) (hstage : p'.pbftStage = p.pbftStage) (hpos : 1 ≤ p.pbftStage)
    (hproposers : p'.proposers = p.proposers) (hprep : prep p'.sequenceID = false)
    (hcom : com p'.sequenceID = false) :
    TruthfulAfter prep com (p', outs) ↔ stageFresh p = true := by
  have hproposing : p'.proposing = p.proposing := by rw [proposing, proposing, hproposers]
  rw [TruthfulAfter, Truthful, (houts.votesAfter_eq prep com).1, (houts.votesAfter_eq prep com).2]
  simp only [hfault, hasking, hprep, hcom, hstage, hproposing, stageTrue_iff, forall_const,
    stageFresh, Bool.or_eq_true, Bool.and_eq_true, decide_eq_true_iff]
  cases p.proposing <;> simp <;> omega

omit [DecidableEq D] in
/-- It moves to one for which the node votes at once. -/
theorem truthfulAfter_of_voted {dest : Dest} {v : Prepare D} (hfault : p'.fault = none)
    (hasking : p'.asking = none) (hstage : p'.pbftStage = p.pbftStage)
    (hseq : v.seqID = p'.sequenceID) (hcom : com p'.sequenceID = false) :
    TruthfulAfter prep com (p', [(.send dest (.prepare v) : Output R D Out)]) ↔
      p.pbftStage = 2 := by
  simp only [TruthfulAfter, Truthful, hfault, hasking, hstage, stageTrue_iff, votesAfter, hcom,
    List.any_cons, List.any_nil, Output.isPrepare, Output.isCommit, hseq, forall_const]
  simp
  omega

omit [DecidableEq D] in
/-- `askForLock` is released at the end: only where it is held, and no handler is in the
middle of its work, the stage has to be true. -/
theorem truthfulAfter_unlockAskFor {q : PbftNode App R D} {P : Prop} (hasking : q.asking = p.asking)
    (hlock : q.askForLock = p.askForLock)
    (h : p.asking = none → p.askForLock = true →
      (TruthfulAfter prep com (q.unlockAskFor, outs) ↔ P)) :
    TruthfulAfter prep com (q.unlockAskFor, outs) ↔
      (p.asking = none → p.askForLock = true → P) := by
  by_cases hask : p.asking = none
  · by_cases hl : p.askForLock = true
    · simpa [hask, hl] using h hask hl
    · refine iff_of_true (truthfulAfter_of_fault ?_) fun _ h => absurd h hl
      rw [unlockAskFor_eq, hlock, if_neg hl]
      exact nofun
  · refine iff_of_true (truthfulAfter_of_asking ?_) fun h => absurd h hask
    rw [unlockAskFor_eq, hasking]
    exact hask

/-- Old requests arrive. -/
theorem handleSendOldSeq_truthful {number : R → Option ℕ} {m : SendOldMessage R}
    (hlaw : LawfulModule cfg.ihm cfg.ohm number) (hp : Truthful p prep com)
    (hfault : p.fault = none) (hpos : 1 ≤ p.pbftStage)
    (hreach : ∀ n, prep n = true ∨ com n = true → n ≤ p.sequenceID)
    (hseq : p.sequenceID = cfg.ihm.height p.curChain + 1)
    (hold : ∀ app, cfg.ihm.handleforSequentialRequest p.curChain m = some (true, app) →
      m.seqEndHeight = cfg.ihm.height app) :
    TruthfulAfter prep com (p.handleSendOldSeq cfg m) ↔
      StageKept cfg p prep com (.receive (.sendOld m)) := by
  have hprep : ∀ n, p.sequenceID < n → prep n = false :=
    fun n => not_voted_of_lt fun n h => hreach n (.inl h)
  have hcom : ∀ n, p.sequenceID < n → com n = false :=
    fun n => not_voted_of_lt fun n h => hreach n (.inr h)
  rw [handleSendOldSeq, StageKept, recoveryKept]
  rcases hres : cfg.ihm.handleforSequentialRequest p.curChain m with _ | ⟨ok, app⟩
  · exact iff_of_true (truthfulAfter_of_fault (Option.some_ne_none _)) fun _ _ => trivial
  cases ok with
  | false =>
    -- a part of them may have been installed
    have hle := hlaw.sequential_le hres
    refine truthfulAfter_unlockAskFor rfl rfl fun hask hl => ?_
    by_cases hsame : cfg.ihm.height app = cfg.ihm.height p.curChain
    · refine iff_of_true ?_ (.inl hsame)
      refine truthfulAfter_congr hp hfault noVotes_nil (fun _ => hask) ?_ ?_ ?_
      · rw [unlockAskFor_eq]
      · rw [unlockAskFor_eq, hseq, hsame]
      · rw [unlockAskFor_eq]
        exact id
    · have hlt : p.sequenceID < cfg.ihm.height app + 1 := by omega
      dsimp only
      rw [or_iff_right hsame]
      refine truthfulAfter_of_moved noVotes_nil ?_ ?_ ?_ hpos ?_ ?_ ?_
      · rw [unlockAskFor_eq]
        simp [hl, hfault]
      all_goals rw [unlockAskFor_eq]
      · exact hask
      · exact hprep _ hlt
      · exact hcom _ hlt
  | true =>
    obtain ⟨-, hlen, hheight, -⟩ := hlaw.sequential hres
    have hlt : p.sequenceID < m.seqEndHeight + 1 := by
      rw [hold app hres, hheight]
      omega
    have hvotes : prep (m.seqEndHeight + 1) = false ∧ com (m.seqEndHeight + 1) = false :=
      ⟨hprep _ hlt, hcom _ hlt⟩
    have hunlock : p.asking = none → p.askForLock = true →
        (p.installed cfg m app).unlockAskFor.fault = none ∧
        (p.installed cfg m app).unlockAskFor.asking = none ∧
        (p.installed cfg m app).unlockAskFor.pbftStage = p.pbftStage ∧
        (p.installed cfg m app).unlockAskFor.proposers = p.proposers ∧
        (p.installed cfg m app).unlockAskFor.sequenceID = m.seqEndHeight + 1 := by
      intro hask hl
      rw [unlockAskFor_eq]
      exact ⟨by simp [hl, hfault], (installed_asking p m app).trans hask,
        installed_pbftStage p m app, installed_proposers p m app, rfl⟩
    have hfresh : TruthfulAfter prep com ((p.installed cfg m app).unlockAskFor,
        ([] : List (Output R D Out))) ↔
          (p.asking = none → p.askForLock = true → stageFresh p = true) := by
      refine truthfulAfter_unlockAskFor (installed_asking p m app)
        (installed_askForLock p m app) fun hask hl => ?_
      obtain ⟨h₁, h₂, h₃, h₄, h₅⟩ := hunlock hask hl
      exact truthfulAfter_of_moved noVotes_nil h₁ h₂ h₃ hpos h₄ (h₅ ▸ hvotes.1) (h₅ ▸ hvotes.2)
    have hinst : ({ recordOld cfg m.seqStartHeight m.oldRequest { p with curChain := app } with
        sequenceID := m.seqEndHeight + 1 } : PbftNode App R D) = p.installed cfg m app := rfl
    dsimp only
    rw [hinst]
    rcases (p.installed cfg m app).storedNext with _ | r
    · exact hfresh
    rw [Option.map_some]
    dsimp only
    rcases cfg.ihm.handleinPrePrepare app r with _ | ok
    · exact iff_of_true (truthfulAfter_of_fault (Option.some_ne_none _)) fun _ _ => trivial
    cases ok with
    | false => exact hfresh
    | true =>
      -- it votes for the next number at once
      refine truthfulAfter_unlockAskFor (installed_asking p m app)
        (installed_askForLock p m app) fun hask hl => ?_
      obtain ⟨h₁, h₂, h₃, -, h₅⟩ := hunlock hask hl
      exact truthfulAfter_of_voted h₁ h₂ h₃ h₅.symm (h₅ ▸ hvotes.2)

/-- `Propose` stores the stage. -/
theorem proposeStage_truthful (hp : Truthful p prep com) (hfault : p.fault = none)
    (h : p.handleInput cfg (.proposeStage : NodeInput R D In) = some (p', outs)) :
    TruthfulAfter prep com (p', outs) ↔
      StageKept cfg p prep com (.proposeStage : NodeInput R D In) := by
  rw [handleInput] at h
  split at h
  · cases h
  rename_i hannounced
  cases h
  by_cases hask : p.asking = none
  · rw [StageKept, TruthfulAfter, Truthful, votesAfter_nil, votesAfter_nil]
    simp only [hfault, hask, forall_const, stageTrue_iff, proposing, decide_eq_false_iff_not]
    have hcom := (hp hfault hask).committed
    rcases Bool.eq_false_or_eq_true (com p.sequenceID) with hc | hc
    · simp [hc]
    · rcases Bool.eq_false_or_eq_true (prep p.sequenceID) with hv | hv
      · simp [hc, hv]
      · simp [hc, hv]
        omega
  · exact iff_of_true (truthfulAfter_of_asking hask) fun h => absurd h hask

/-- A vote to prepare is handled: a node votes to commit from the second stage on only. -/
theorem handlePrepare_truthful {m : Prepare D} (hp : Truthful p prep com) (hfault : p.fault = none)
    (h : Transition cfg p (.receive (.prepare m) : NodeInput R D In) p' outs) :
    TruthfulAfter prep com (p', outs) := by
  cases h with
  | idle => exact truthfulAfter_congr hp hfault noVotes_nil id rfl rfl id
  | panicked => exact truthfulAfter_of_fault (Option.some_ne_none _)
  | moved _ _ h => rcases h with ⟨h, -⟩ | h <;> cases h
  | prepareCounted => exact truthfulAfter_congr hp hfault noVotes_nil id rfl rfl id
  | endorsed _ _ r ha hst hs =>
    intro _ _
    simp [stageTrue_iff, votesAfter, Output.isPrepare, Output.isCommit, hs]
    omega

/-- **A step keeps the stage true exactly when it meets the condition.** -/
theorem nodeStep_truthful {number : R → Option ℕ} {input : NodeInput R D In}
    (hlaw : LawfulModule cfg.ihm cfg.ohm number) (hp : Truthful p prep com)
    (hpos : 1 ≤ p.pbftStage) (hreach : ∀ n, prep n = true ∨ com n = true → n ≤ p.sequenceID)
    (hal : Aligned cfg.ihm.height p) (hcalm : input.calm = true)
    (hold : ∀ m app, input = .receive (.sendOld m) →
      cfg.ihm.handleforSequentialRequest p.curChain m = some (true, app) →
      m.seqEndHeight = cfg.ihm.height app)
    (h : p.nodeStep cfg input = some (p', outs)) :
    TruthfulAfter prep com (p', outs) ↔ StageKept cfg p prep com input := by
  obtain ⟨hfault, htr⟩ := nodeStep_transition h
  have hin : p.handleInput cfg input = some (p', outs) := by
    rwa [nodeStep, if_neg (by simp [hfault])] at h
  cases input with
  | nextRound | proposeCheck =>
    refine iff_of_true ?_ trivial
    cases htr with
    | panicked => exact truthfulAfter_of_fault (Option.some_ne_none _)
    | moved _ proposers _ hl ha =>
      refine truthfulAfter_congr hp hfault noVotes_nil id rfl rfl ?_
      simp [proposing, hl, ha]
  | proposeLock =>
    refine iff_of_true ?_ trivial
    cases htr with
    | panicked => exact truthfulAfter_of_fault (Option.some_ne_none _)
    | moved _ _ hmove => rcases hmove with ⟨hmove, -⟩ | hmove <;> cases hmove
    | locked =>
      refine truthfulAfter_congr hp hfault noVotes_nil id rfl rfl ?_
      simp only [proposing, decide_eq_true_iff]
      omega
  | proposeBroadcast now =>
    refine iff_of_true ?_ trivial
    cases htr with
    | panicked => exact truthfulAfter_of_fault (Option.some_ne_none _)
    | moved _ _ hmove => rcases hmove with ⟨hmove, -⟩ | hmove <;> cases hmove
    | broadcast =>
      refine truthfulAfter_congr hp hfault (fun n => ⟨rfl, rfl⟩) id rfl rfl ?_
      simp only [proposing, decide_eq_true_iff]
      omega
  | proposeStage => exact proposeStage_truthful hp hfault hin
  | viewChangePropose => cases hcalm
  | askForRequests =>
    rw [handleInput] at hin
    split at hin
    · cases hin
    split at hin
    · cases hin
    rw [← Option.some.inj hin]
    exact askForRequests_truthful hfault _
  | receive m =>
    cases m with
    | prePrepare m => exact handlePrePrepare_truthful hp hfault hpos hin
    | prepare m => exact iff_of_true (handlePrepare_truthful hp hfault htr) trivial
    | commit m => exact handleCommit_truthful hp hfault hreach hin
    | requestOld m =>
      refine iff_of_true ?_ trivial
      cases htr with
      | idle => exact truthfulAfter_congr hp hfault noVotes_nil id rfl rfl id
      | panicked => exact truthfulAfter_of_fault (Option.some_ne_none _)
      | moved _ _ hmove => rcases hmove with ⟨hmove, -⟩ | hmove <;> cases hmove
      | answered => exact truthfulAfter_congr hp hfault (fun n => ⟨rfl, rfl⟩) id rfl rfl id
    | sendOld m =>
      rw [← Option.some.inj hin]
      exact handleSendOldSeq_truthful hlaw hp hfault hpos hreach (hal hfault)
        fun app => hold m app rfl
    | viewChange m => cases hcalm
    | newView m => cases hcalm
  | outside m =>
    refine iff_of_true ?_ trivial
    cases htr with
    | panicked => exact truthfulAfter_of_fault (Option.some_ne_none _)
    | moved _ _ hmove => rcases hmove with ⟨hmove, -⟩ | hmove <;> cases hmove
    | outside => exact truthfulAfter_congr hp hfault noVotes_nil id rfl rfl id

end PbftNode

/-! ## What every step keeps -/

namespace PbftNode

variable [DecidableEq D] {cfg : PbftConfig App R D In Out} {p p' : PbftNode App R D}
  {input : NodeInput R D In} {outs : List (Output R D Out)}

/-- The stage is never below the first. -/
theorem Transition.pbftStage_pos (h : Transition cfg p input p' outs) (hp : 1 ≤ p.pbftStage) :
    1 ≤ p'.pbftStage := by
  cases h with
  | staged => exact Nat.le_of_lt Nat.one_lt_two
  | timedOut => exact Nat.le_add_left _ _
  | prepared => exact Nat.le_add_left _ _
  | endorsed => exact Nat.le_add_left _ _
  | asked => simp [askForRequests, endRound_eq]
  | resumed => simp [askForRequests, endRound_eq]
  | committed => simp [endRound_eq]
  | oldFailed => simpa [unlockAskFor_eq] using hp
  | oldInstalled m app => simpa [unlockAskFor_eq] using hp
  | oldPrepared m app => simpa [unlockAskFor_eq] using hp
  | oldPanicked m app => simpa using hp
  | viewEntered => exact le_rfl
  | _ => exact hp

/-- A node votes for the sequence number it is at, afterwards. -/
theorem Transition.vote_eq (h : Transition cfg p input p' outs) {n : ℕ}
    (hn : outs.any (Output.isPrepare n) = true ∨ outs.any (Output.isCommit n) = true) :
    n = p'.sequenceID := by
  cases h with
  | prepared m ha hs =>
    have : m.seqID = n := by simpa [Output.isPrepare, Output.isCommit] using hn
    exact this.symm.trans hs
  | endorsed m confirm r ha hst hs =>
    have : m.seqID = n := by simpa [Output.isPrepare, Output.isCommit] using hn
    exact this.symm.trans hs
  | oldPrepared m app =>
    rw [unlockAskFor_eq]
    have : m.seqEndHeight + 1 = n := by simpa [Output.isPrepare, Output.isCommit] using hn
    exact this.symm
  | asked => simp [askForRequests, Output.isPrepare, Output.isCommit] at hn
  | resumed => simp [askForRequests, Output.isPrepare, Output.isCommit] at hn
  | _ => simp [Output.isPrepare, Output.isCommit] at hn

/-- Messages of a view change follow a timeout. -/
theorem Transition.calm (h : Transition cfg p input p' outs) (hin : input.calm = true)
    {dest : Dest} {m : Message R D} (hm : .send dest m ∈ outs) : m.isViewMessage = false := by
  cases h with
  | timedOut => cases hin
  | changeCounted => cases hin
  | changeAnnounced => cases hin
  | broadcast | prepared | endorsed | answered | oldPrepared =>
    obtain ⟨-, rfl⟩ : _ ∧ m = _ := by simpa using hm
    rfl
  | asked | resumed =>
    obtain ⟨-, rfl⟩ : _ ∧ m = _ := by simpa [askForRequests] using hm
    rfl
  | committed => simp at hm
  | _ => simp at hm

end PbftNode

/-! ## The shard -/

/-- Whether a node has broadcast a Prepare for a sequence number. -/
def ShardState.hasPrepared (s : ShardState App R D Out) (i n : ℕ) : Bool :=
  s.history.any fun e => decide (e.1 = i) && e.2.isPrepare n

/-- Whether a node has broadcast a Commit for a sequence number. -/
def ShardState.hasCommitted (s : ShardState App R D Out) (i n : ℕ) : Bool :=
  s.history.any fun e => decide (e.1 = i) && e.2.isCommit n

/-- **The stages of all nodes are true.** -/
def StagesTrue (s : ShardState App R D Out) : Prop :=
  ∀ i, Truthful (s.nodes i) (s.hasPrepared i) (s.hasCommitted i)

/-- The votes of a node after a step. -/
theorem history_votes (vote : Output R D Out → Bool) (i j : ℕ) (outs : List (Output R D Out))
    (history : List (ℕ × Output R D Out)) :
    ((outs.map (i, ·) ++ history).any fun e => decide (e.1 = j) && vote e.2) =
      ((decide (i = j) && outs.any vote) || history.any fun e => decide (e.1 = j) && vote e.2) := by
  by_cases hij : i = j
  · simp [hij, Function.comp_def]
  · simp [hij, Function.comp_def]

variable [DecidableEq R] [DecidableEq D]

/-- One step of a shard without Byzantine nodes and without timeouts. -/
def timelyStep (cfg : PbftConfig App R D In Out) (s : ShardState App R D Out) :
    ShardAction R D In → Option (ShardState App R D Out)
  | .node _ .viewChangePropose => none
  | a => s.step cfg ∅ a

/-- The condition on a step of a shard. -/
def StagesKept (cfg : PbftConfig App R D In Out) (s : ShardState App R D Out) :
    ShardAction R D In → Prop
  | .node i input => StageKept (cfg.at i) (s.nodes i) (s.hasPrepared i) (s.hasCommitted i) input
  | .forge _ _ => True

/-- What every step keeps. -/
structure StageSound (cfg : PbftConfig App R D In Out) (number : R → Option ℕ)
    (s : ShardState App R D Out) : Prop where
  /-- everything is stored and sent under the height it is for -/
  straight : Straight cfg number s
  /-- sequence numbers are those after the chains -/
  aligned : AllAligned cfg s
  /-- stages begin with the first -/
  pos : ∀ i, 1 ≤ (s.nodes i).pbftStage
  /-- nobody has voted for a number that it has not reached -/
  reached : ∀ i, (s.nodes i).fault = none → ∀ n,
    s.hasPrepared i n = true ∨ s.hasCommitted i n = true → n ≤ (s.nodes i).sequenceID
  /-- no view change is under way -/
  calm : ∀ i dest m, (i, .send dest m) ∈ s.history → m.isViewMessage = false

namespace StageSound

variable {cfg : PbftConfig App R D In Out} {number : R → Option ℕ}
  {s t : ShardState App R D Out} {a : ShardAction R D In}

omit [DecidableEq R] [DecidableEq D] in
theorem new (apps : ℕ → App) :
    StageSound cfg number (ShardState.new cfg.ihm.height apps : ShardState App R D Out) where
  straight := .new apps
  aligned := allAligned_new apps
  pos _ := le_rfl
  reached i _ n h := by rcases h with h | h <;> cases h
  calm i dest m h := by cases h

/-- A step is one of a node, on a calm input. -/
theorem step_node (hs : StageSound cfg number s) (h : timelyStep cfg s a = some t) :
    ∃ i input p outs, a = .node i input ∧ input.calm = true ∧ s.step cfg ∅ a = some t ∧
      s.arrives (cfg.ipOf i) input = true ∧ (s.nodes i).nodeStep (cfg.at i) input = some (p, outs) ∧
      t = ⟨Function.update s.nodes i p, outs.map (i, ·) ++ s.history⟩ := by
  rcases a with ⟨i, input⟩ | ⟨b, m⟩
  · have hne : input ≠ .viewChangePropose := by
      rintro rfl
      cases h
    have hstep : s.step cfg ∅ (.node i input) = some t := by
      cases input with
      | viewChangePropose => exact absurd rfl hne
      | _ => exact h
    have h' := hstep
    rw [ShardState.step] at h'
    split at h'
    case isFalse => cases h'
    rename_i hin
    obtain ⟨⟨p, outs⟩, hnode, rfl⟩ := Option.map_eq_some_iff.mp h'
    refine ⟨i, input, p, outs, rfl, ?_, hstep, hin.2.2, hnode, rfl⟩
    cases input with
    | viewChangePropose => exact absurd rfl hne
    | receive m =>
      obtain ⟨k, dest, hsent⟩ := ShardState.arrives_receive hin.2.2
      simp [NodeInput.calm, hs.calm k dest m hsent]
    | _ => rfl
  · obtain ⟨hb, -, -⟩ := ShardState.step_forge h
    exact absurd hb (Finset.notMem_empty b)

/-- Nodes stay aligned: no new view is under way. -/
theorem aligned_step (hs : StageSound cfg number s) (hlaw : LawfulModule cfg.ihm cfg.ohm number)
    (h : timelyStep cfg s a = some t) : AllAligned cfg t := by
  obtain ⟨i, input, p, outs, rfl, hcalm, hstep, -⟩ := hs.step_node h
  refine (hs.straight.allAligned_step hlaw hs.aligned hstep).mpr ?_
  cases input with
  | receive m =>
    cases m with
    | newView m => cases hcalm
    | _ => trivial
  | _ => trivial

/-- **Every step keeps the invariant.** -/
theorem step (hs : StageSound cfg number s) (hlaw : LawfulModule cfg.ihm cfg.ohm number)
    (hdig : Function.Injective cfg.getDigest) (h : timelyStep cfg s a = some t) :
    StageSound cfg number t := by
  have hal := hs.aligned_step hlaw h
  obtain ⟨i, input, p, outs, rfl, hcalm, hstep, harr, hnode, rfl⟩ := hs.step_node h
  obtain ⟨hfault, htr⟩ := nodeStep_transition hnode
  refine ⟨hs.straight.step hlaw hdig hs.aligned hstep, hal, fun j => ?_, fun j hf n hn => ?_,
    fun j dest m hm => ?_⟩
  · by_cases hj : j = i
    · subst hj
      simpa using htr.pbftStage_pos (hs.pos j)
    · simpa [hj] using hs.pos j
  · rw [ShardState.hasPrepared, ShardState.hasCommitted, history_votes, history_votes] at hn
    by_cases hj : j = i
    · subst hj
      have halp := hal j
      simp only [Function.update_self] at hf halp ⊢
      have hmono := htr.height_le hlaw hf
      have hseq := hs.aligned j hfault
      have hseq' := halp hf
      by_cases hnew : outs.any (Output.isPrepare n) = true ∨ outs.any (Output.isCommit n) = true
      · exact (htr.vote_eq hnew).le
      · obtain ⟨hnp, hnc⟩ := not_or.mp hnew
        simp only [Bool.not_eq_true] at hnp hnc
        rw [hnp, hnc, Bool.and_false, Bool.false_or, Bool.false_or] at hn
        have hold := hs.reached j hfault n hn
        simp only [PbftConfig.at_ihm] at hmono
        omega
    · have hji : i ≠ j := Ne.symm hj
      simp only [hji, decide_false, Bool.false_and, Bool.false_or] at hn
      simp only [Function.update_of_ne hj] at hf ⊢
      exact hs.reached j hf n hn
  · rcases ShardState.mem_history_node hm with hm | ⟨-, hm⟩
    · exact hs.calm j dest m hm
    · exact htr.calm hcalm hm

/-- **A step keeps all stages true exactly when it meets the condition.** -/
theorem stagesTrue_step (hs : StageSound cfg number s)
    (hlaw : LawfulModule cfg.ihm cfg.ohm number) (htrue : StagesTrue s)
    (h : timelyStep cfg s a = some t) : StagesTrue t ↔ StagesKept cfg s a := by
  obtain ⟨i, input, p, outs, rfl, hcalm, -, harr, hnode, rfl⟩ := hs.step_node h
  obtain ⟨hfault, htr⟩ := nodeStep_transition hnode
  have hone : TruthfulAfter (s.hasPrepared i) (s.hasCommitted i) (p, outs) ↔
      StageKept (cfg.at i) (s.nodes i) (s.hasPrepared i) (s.hasCommitted i) input := by
    have hlawful : LawfulModule (cfg.at i).ihm (cfg.at i).ohm number := hlaw
    refine nodeStep_truthful hlawful (htrue i) (hs.pos i) (hs.reached i hfault) (hs.aligned i) hcalm
      ?_ hnode
    rintro m app rfl hres
    obtain ⟨k, dest, hsent⟩ := ShardState.arrives_receive harr
    exact hs.straight.seqEndHeight_eq hlaw hsent hres
  have hvotes : ∀ (vote : ℕ → Output R D Out → Bool) j,
      (fun n => (outs.map (i, ·) ++ s.history).any fun e => decide (e.1 = j) && vote n e.2) =
        if j = i then votesAfter vote outs fun n =>
          s.history.any fun e => decide (e.1 = j) && vote n e.2
        else fun n => s.history.any fun e => decide (e.1 = j) && vote n e.2 := by
    intro vote j
    funext n
    rw [history_votes]
    by_cases hj : j = i
    · simp [hj, votesAfter]
    · simp [hj, Ne.symm hj]
  rw [StagesKept, ← hone]
  constructor
  · intro hall
    have hi := hall i
    unfold ShardState.hasPrepared ShardState.hasCommitted at hi
    dsimp only at hi
    rw [hvotes, hvotes, if_pos rfl, if_pos rfl, Function.update_self] at hi
    exact hi
  · intro hi j
    unfold ShardState.hasPrepared ShardState.hasCommitted
    dsimp only
    rw [hvotes, hvotes]
    by_cases hj : j = i
    · subst hj
      rw [if_pos rfl, if_pos rfl, Function.update_self]
      exact hi
    · rw [if_neg hj, if_neg hj, Function.update_of_ne hj]
      exact htrue j

end StageSound

/-- **Where the stages of a shard are true**: along a run without Byzantine nodes and
timeouts they are true in all states exactly when every step meets the condition. -/
theorem stagesTrue_iff (hlaw : LawfulModule cfg.ihm cfg.ohm number)
    (hdig : Function.Injective cfg.getDigest) (apps : ℕ → App)
    (as : List (ShardAction R D In)) :
    AllStates (timelyStep cfg) StagesTrue (ShardState.new cfg.ihm.height apps) as ↔
      AllSteps (timelyStep cfg) (StagesKept cfg) (ShardState.new cfg.ihm.height apps) as :=
  allStates_iff_allSteps (StageSound cfg number) (fun _ _ _ hs _ _ h => hs.step hlaw hdig h)
    (fun _ _ _ hs htrue h => hs.stagesTrue_step hlaw htrue h) as _ (.new apps)
    fun _ _ _ => ⟨nofun, by simp [ShardState.new, PbftNode.new, ShardState.hasCommitted],
      fun _ _ _ => rfl⟩

/-! ## In a relay shard -/

/-- **The stages of a relay shard**: from any chains, along a run without Byzantine nodes
and timeouts, they are true in all states exactly when every step meets the condition. -/
theorem stages_true_iff {H : Type} [DecidableEq H] (cc : ChainConfig H)
    (nodeNums : ℕ) (ipNodeTable : ℕ → ℕ → Option String)
    {getDigest : Option (Request H) → D} (hdig : Function.Injective getDigest)
    (chains : ℕ → BlockChain H)
    (as : List (ShardAction (Option (Request H)) D OutsideMessage)) :
    let cfg := relayConfig cc nodeNums ipNodeTable getDigest
    AllStates (timelyStep cfg) StagesTrue (ShardState.new cfg.ihm.height chains) as ↔
      AllSteps (timelyStep cfg) (StagesKept cfg) (ShardState.new cfg.ihm.height chains) as :=
  stagesTrue_iff RawRelay.lawful hdig chains as

/-! ### Runs of four nodes -/

instance (cfg : PbftConfig App R D In Out) (p : PbftNode App R D) (m : SendOldMessage R) :
    Decidable (recoveryKept cfg p m) := by
  unfold recoveryKept
  split
  · infer_instance
  · infer_instance
  · split
    · infer_instance
    · infer_instance
    · infer_instance

instance (cfg : PbftConfig App R D In Out) (p : PbftNode App R D) (prep com : ℕ → Bool) :
    ∀ input, Decidable (StageKept cfg p prep com input)
  | .proposeStage | .receive (.prePrepare _) | .receive (.commit _) | .askForRequests
  | .receive (.sendOld _) => inferInstanceAs (Decidable (_ → _))
  | .receive (.prepare _) | .receive (.requestOld _) | .receive (.viewChange _)
  | .receive (.newView _) | .nextRound | .proposeCheck | .proposeLock | .proposeBroadcast _
  | .viewChangePropose | .outside _ => .isTrue trivial

instance (cfg : PbftConfig App R D In Out) (s : ShardState App R D Out) :
    ∀ a : ShardAction R D In, Decidable (StagesKept cfg s a)
  | .node i input => inferInstanceAs (Decidable (StageKept (cfg.at i) _ _ _ input))
  | .forge _ _ => .isTrue trivial

/-- Node 0 proposes at time 7, but for the stage. -/
def broadcastFirst : List FreeAction :=
  [.node 0 .nextRound, .node 0 .proposeCheck, .node 0 .proposeLock, .node 0 (.proposeBroadcast 7)]

/-- The first round, where the leader handles its proposal before it stores the stage. -/
def stageRun : List FreeAction :=
  broadcastFirst ++ deliverPrePrepare [0, 1, 2] (emptyRequest 0 7) 1 ++ [.node 0 .proposeStage] ++
    deliverPrepare [0, 1, 2] [0, 1, 2] (emptyRequest 0 7) 1 ++
    deliverCommit [0, 1, 2] [0, 1, 2] (emptyRequest 0 7) 1

/-- Its stages are true. -/
theorem stages_true_iff_round :
    AllStates (timelyStep fourNodes) StagesTrue fourNodesStart stageRun := by
  refine (stages_true_iff fourNodesChain 4 fourNodesIP Function.injective_id _ _).mpr ?_
  obtain ⟨t, ht⟩ := Option.isSome_iff_exists.mp
    (show (runWith (timelyStep fourNodes) (StagesKept fourNodes) fourNodesStart
      stageRun).isSome = true by decide +kernel)
  exact AllSteps.of_runWith (fun _ _ h => h) ht

/-- **A stage lies** where a node gets a proposal twice, and where a leader stores the stage
before it handles its own proposal: it is 3, and the node has not voted to commit. -/
theorem stage_lies :
    ¬ AllStates (timelyStep fourNodes) StagesTrue fourNodesStart
        (broadcastFirst ++ deliverPrePrepare [1, 1] (emptyRequest 0 7) 1) ∧
      ¬ AllStates (timelyStep fourNodes) StagesTrue fourNodesStart
        (propose 0 7 ++ deliverPrePrepare [0] (emptyRequest 0 7) 1) := by
  have hlie : ∀ (as : List FreeAction) (i : ℕ),
      ((runWith (timelyStep fourNodes) (fun _ _ => True) fourNodesStart as).any fun t =>
        decide ((t.nodes i).fault = none ∧ (t.nodes i).asking = none ∧
          3 ≤ (t.nodes i).pbftStage ∧ t.hasCommitted i (t.nodes i).sequenceID = false)) = true →
      ¬ AllStates (timelyStep fourNodes) StagesTrue fourNodesStart as := by
    intro as i hend h
    obtain ⟨t, htrue, hf, hask, hstage, hno⟩ := h.exists_of_runWith hend
    rw [(htrue i hf hask).committed, hno] at hstage
    cases hstage
  exact ⟨hlie _ 1 (by decide +kernel), hlie _ 0 (by decide +kernel)⟩

end BlockEmulator
