import BlockEmulator.Shard

/-!
# A round of consensus without faults

The messages of one round, from the proposal on, are the PrePrepare of the leader, and the
Prepare and the Commit of each node that runs.

What one node makes of these messages. `Deciding` and `DecidedRound` are a node before and after
it commits the request, by the messages that it has handled; `Deciding.proposal`,
`Deciding.prepare` and `Deciding.commit` say what each message does.
-/

namespace BlockEmulator

open StepSystem PbftNode

variable {App R D In Out : Type}

/-! ## Rounds -/

/-- The messages of a round. -/
inductive RoundMsg where
  /-- the PrePrepare of the leader -/
  | proposal
  /-- the Prepare of a node -/
  | prepare (k : ℕ)
  /-- the Commit of a node -/
  | commit (k : ℕ)
  deriving DecidableEq

/-- Whether the nodes that run can decide under a leader: they are a quorum, and the leader
is one of them. -/
structure Crew (cfg : PbftConfig App R D In Out) (alive : Finset ℕ) (leader : ℕ) (view : ℤ) :
    Prop where
  /-- they are a quorum -/
  quorum : cfg.quorum ≤ alive.card
  /-- they are nodes of the shard -/
  nodes : ∀ k ∈ alive, k < cfg.nodeNums
  /-- the leader leads in this view -/
  view : (view % 2 ^ 64).toNat = leader
  /-- it is one of them -/
  leader : leader ∈ alive
  /-- they are in the table of nodes -/
  member : ∀ k ∈ alive, ∃ ip, cfg.ipNodeTable cfg.shardID k = some ip

/-- What is fixed in a round. -/
structure RoundPlan (App R Out : Type) where
  /-- the nodes that run -/
  alive : Finset ℕ
  /-- the leader -/
  leader : ℕ
  /-- the view -/
  view : ℤ
  /-- the sequence number -/
  seqID : ℕ
  /-- the request -/
  request : R
  /-- what each node runs over, once the request is proposed -/
  before : ℕ → App
  /-- what each node runs over, once it has committed it -/
  after : ℕ → App
  /-- what each node sends out of the shard then -/
  relays : ℕ → List Out

/-- The round for a request, where the nodes commit it as they do. -/
def RoundPlan.of (cfg : PbftConfig App R D In Out) (alive : Finset ℕ) (leader : ℕ) (view : ℤ)
    (seqID : ℕ) (request : R) (before : ℕ → App) : RoundPlan App R Out where
  alive := alive
  leader := leader
  view := view
  seqID := seqID
  request := request
  before := before
  after i :=
    match cfg.ihm.handleinCommit (decide (leader = i)) seqID (before i) request with
    | .done app _ => app
    | _ => before i
  relays i :=
    match cfg.ihm.handleinCommit (decide (leader = i)) seqID (before i) request with
    | .done _ outs => outs
    | _ => []

section

variable [DecidableEq D] (cfg : PbftConfig App R D In Out) (rd : RoundPlan App R Out)

/-- The digest of the request. -/
def RoundPlan.digest : D := cfg.getDigest rd.request

/-- A message of a round, as it is sent. -/
def RoundMsg.toMessage : RoundMsg → Message R D
  | .proposal => .prePrepare ⟨rd.request, rd.digest cfg, rd.seqID⟩
  | .prepare k => .prepare ⟨rd.digest cfg, rd.seqID, some (cfg.at k).runningNode⟩
  | .commit k => .commit ⟨rd.digest cfg, rd.seqID, some (cfg.at k).runningNode⟩

/-- Whether the nodes that run can decide under the leader of this round. -/
abbrev RoundPlan.Lawful : Prop := Crew cfg rd.alive rd.leader rd.view

/-- Whether a node agrees on the request. -/
structure Agrees (i : ℕ) : Prop where
  /-- it accepts the request -/
  accepted : cfg.ihm.handleinPrePrepare (rd.before i) rd.request = some true
  /-- it can commit it -/
  committed : cfg.ihm.handleinCommit (decide (rd.leader = i)) rd.seqID (rd.before i) rd.request =
    .done (rd.after i) (rd.relays i)
  /-- only the leader sends something out of the shard -/
  silent : rd.leader ≠ i → rd.relays i = []

/-- A node that has not committed the request, by the messages of the round that it has
handled. -/
structure Deciding (p : PbftNode App R D) (i : ℕ) (got : RoundMsg → Bool) : Prop where
  /-- it agrees on the request -/
  agrees : Agrees cfg rd i
  /-- it is in the view of the round -/
  view : p.view = rd.view
  /-- it is at the sequence number of the round -/
  sequenceID : p.sequenceID = rd.seqID
  /-- its chain has not changed -/
  curChain : p.curChain = rd.before i
  /-- no handler is blocked -/
  asking : p.asking = none
  /-- the process runs -/
  fault : p.fault = none
  /-- no goroutine of `Propose` is under way -/
  proposers : p.proposers = ⟨0, 0, 0, 0⟩
  /-- the leader holds the lock -/
  sequenceLock : p.sequenceLock.isSome = decide (rd.leader = i)
  /-- the stage goes up with the PrePrepare, and with the Commit that it broadcasts -/
  pbftStage : p.pbftStage = (if rd.leader = i then 2 else 1) +
    ((if got .proposal then 1 else 0) + if p.isCommitBordcast (rd.digest cfg) then 1 else 0)
  /-- the request is stored -/
  requestPool : got .proposal = true ∨ rd.leader = i →
    p.requestPool (rd.digest cfg) = some rd.request
  /-- the Prepares that it has counted -/
  prepares : ∀ k, k ∈ p.cntPrepareConfirm (rd.digest cfg) ↔ got (.prepare k) = true
  /-- it has broadcast its Commit when there was a quorum of them -/
  isCommitBordcast : p.isCommitBordcast (rd.digest cfg) = true ↔
    cfg.quorum ≤ (p.cntPrepareConfirm (rd.digest cfg)).card
  /-- it counts Prepares when it knows the request -/
  known : p.isCommitBordcast (rd.digest cfg) = true → got .proposal = true ∨ rd.leader = i
  /-- the Commits that it has counted -/
  commits : ∀ k, k ∈ p.cntCommitConfirm (rd.digest cfg) ↔ got (.commit k) = true
  /-- there is no quorum of them -/
  few : (p.cntCommitConfirm (rd.digest cfg)).card < cfg.quorum
  /-- it has not committed the request -/
  isReply : p.isReply (rd.digest cfg) = false

/-- A node that is ready for a round. -/
structure Ready (view : ℤ) (seqID : ℕ) (app : App) (p : PbftNode App R D) : Prop where
  /-- it is in this view -/
  view : p.view = view
  /-- it is at this sequence number -/
  sequenceID : p.sequenceID = seqID
  /-- it runs over this -/
  curChain : p.curChain = app
  /-- no handler is blocked -/
  asking : p.asking = none
  /-- the process runs -/
  fault : p.fault = none
  /-- no goroutine of `Propose` is under way -/
  proposers : p.proposers = ⟨0, 0, 0, 0⟩
  /-- the lock is free -/
  sequenceLock : p.sequenceLock = none
  /-- the stage is that of a new round -/
  pbftStage : p.pbftStage = 1

/-- A node that has committed the request is ready for the next round. -/
abbrev DecidedRound (p : PbftNode App R D) (i : ℕ) : Prop :=
  Ready rd.view (rd.seqID + 1) (rd.after i) p

end

/-! ## What one message does -/

section

variable [DecidableEq D] {cfg : PbftConfig App R D In Out} {rd : RoundPlan App R Out}
  {p : PbftNode App R D} {i k : ℕ} {got : RoundMsg → Bool}

omit [DecidableEq D] in
/-- A node that accepts a request and commits it agrees on it. -/
theorem RoundPlan.of_agrees {alive : Finset ℕ} {leader seqID : ℕ} {view : ℤ} {request : R}
    {before : ℕ → App} (haccepted : cfg.ihm.handleinPrePrepare (before i) request = some true)
    {app : App} {outs : List Out}
    (hdone : cfg.ihm.handleinCommit (decide (leader = i)) seqID (before i) request =
      .done app outs) (hsilent : leader ≠ i → outs = []) :
    Agrees cfg (RoundPlan.of cfg alive leader view seqID request before) i ∧
      (RoundPlan.of cfg alive leader view seqID request before).after i = app ∧
      (RoundPlan.of cfg alive leader view seqID request before).relays i = outs := by
  have hafter : (RoundPlan.of cfg alive leader view seqID request before).after i = app := by
    simp only [RoundPlan.of, hdone]
  have hrelays : (RoundPlan.of cfg alive leader view seqID request before).relays i = outs := by
    simp only [RoundPlan.of, hdone]
  refine ⟨⟨haccepted, ?_, fun hne => hrelays.trans (hsilent hne)⟩, hafter, hrelays⟩
  rw [hafter, hrelays]
  exact hdone

theorem RoundPlan.Lawful.set2DMap (h : rd.Lawful cfg) (hk : k ∈ rd.alive)
    (confirm : D → Finset ℕ) (d : D) :
    PbftNode.set2DMap (cfg.at i) confirm d (some (cfg.at k).runningNode) =
      some (Function.update confirm d (insert k (confirm d))) := by
  obtain ⟨ip, hip⟩ := h.member k hk
  rw [PbftNode.set2DMap]
  have hseen : (cfg.at i).ipNodeTable cfg.shardID k = some (cfg.at k).runningNode.ipAddr := by
    simp [PbftConfig.runningNode, PbftConfig.ipOf, PbftConfig.at, hip]
  exact if_pos ⟨rfl, h.nodes k hk, hseen⟩

omit [DecidableEq D] in
theorem Deciding.isMain (h : Deciding cfg rd p i got) (hl : rd.Lawful cfg) :
    p.isMain (cfg.at i) = decide (rd.leader = i) := by
  rw [PbftNode.isMain, mainNode, h.view, hl.view]
  rfl

omit [DecidableEq D] in
/-- A node that counts votes knows the request. -/
theorem Deciding.known_of_stage (h : Deciding cfg rd p i got) (hst : 2 ≤ p.pbftStage) :
    got .proposal = true ∨ rd.leader = i := by
  by_contra hno
  rw [not_or, Bool.not_eq_true] at hno
  have hb : p.isCommitBordcast (rd.digest cfg) = false := by
    by_contra hb
    rcases h.known (by simpa using hb) with hgot | hlead
    · rw [hno.1] at hgot
      cases hgot
    · exact hno.2 hlead
  have hstage := h.pbftStage
  rw [if_neg hno.2, hno.1, hb] at hstage
  simp at hstage
  omega

/-- The PrePrepare: the node broadcasts its Prepare. -/
theorem Deciding.proposal (h : Deciding cfg rd p i got) (hgot : got .proposal = false) :
    ∃ q, p.handleMessage (cfg.at i) (RoundMsg.proposal.toMessage cfg rd : Message R D) =
        some (q, [.send .all (RoundMsg.toMessage cfg rd (.prepare i))]) ∧
      Deciding cfg rd q i (Function.update got .proposal true) ∧
      q.isCommitBordcast (rd.digest cfg) = p.isCommitBordcast (rd.digest cfg) := by
  have hst : 1 ≤ p.pbftStage := by
    rw [h.pbftStage]
    split <;> omega
  refine ⟨{ p.record (cfg.at i) rd.seqID rd.request with pbftStage := p.pbftStage + 1 }, ?_, ?_,
    rfl⟩
  · change p.handlePrePrepare (cfg.at i) ⟨rd.request, rd.digest cfg, rd.seqID⟩ = _
    rw [handlePrePrepare, if_neg, if_neg, if_neg, if_neg]
    · dsimp only
      rw [h.curChain, PbftConfig.at_ihm, h.agrees.accepted]
      rfl
    · rw [h.sequenceID]
      exact Nat.lt_irrefl _
    · exact not_not.mpr rfl
    · rw [h.sequenceID]
      exact Nat.lt_irrefl _
    · rw [h.asking, waits, not_or]
      exact ⟨Bool.false_ne_true, fun hw => absurd hw.1 (Nat.not_lt.mpr hst)⟩
  · exact
      { h with
        pbftStage := by
          have hstage := h.pbftStage
          rw [hgot] at hstage
          simp only [record, Function.update_self, if_true, hstage]
          simp
          omega
        requestPool := fun _ => Function.update_self ..
        prepares := fun k => by simpa [record] using h.prepares k
        known := fun _ => .inl (Function.update_self ..)
        commits := fun k => by simpa [record] using h.commits k }

/-- A Prepare that is let in: it is counted, and a quorum of them makes the node broadcast
its Commit. -/
theorem Deciding.prepare (h : Deciding cfg rd p i got) (hl : rd.Lawful cfg)
    (hk : k ∈ rd.alive) (hst : 2 ≤ p.pbftStage) :
    ∃ q outs, p.handleMessage (cfg.at i) (RoundMsg.toMessage cfg rd (.prepare k) : Message R D) =
        some (q, outs) ∧
      Deciding cfg rd q i (Function.update got (.prepare k) true) ∧
      (outs = [] ∧ q.isCommitBordcast (rd.digest cfg) = p.isCommitBordcast (rd.digest cfg) ∨
        outs = [.send .all (RoundMsg.toMessage cfg rd (.commit i))] ∧
          cfg.quorum ≤ (q.cntPrepareConfirm (rd.digest cfg)).card) := by
  have hknown := h.known_of_stage hst
  have hreq := h.requestPool hknown
  have hknown' : Function.update got (.prepare k) true .proposal = true ∨ rd.leader = i := by
    simpa using hknown
  have hprep : ∀ j, j ∈ Function.update p.cntPrepareConfirm (rd.digest cfg)
      (insert k (p.cntPrepareConfirm (rd.digest cfg))) (rd.digest cfg) ↔
      Function.update got (.prepare k) true (.prepare j) = true := by
    intro j
    rw [Function.update_self, Finset.mem_insert, h.prepares, Function.update_apply]
    by_cases hj : j = k <;> simp [hj]
  have hhandle : p.handleMessage (cfg.at i) (RoundMsg.toMessage cfg rd (.prepare k) : Message R D) =
      if cfg.quorum ≤ (insert k (p.cntPrepareConfirm (rd.digest cfg))).card ∧
          p.isCommitBordcast (rd.digest cfg) = false then
        some ({ p with
            cntPrepareConfirm := Function.update p.cntPrepareConfirm (rd.digest cfg)
              (insert k (p.cntPrepareConfirm (rd.digest cfg)))
            isCommitBordcast := Function.update p.isCommitBordcast (rd.digest cfg) true
            pbftStage := p.pbftStage + 1 },
          [.send .all (RoundMsg.toMessage cfg rd (.commit i))])
      else some ({ p with
            cntPrepareConfirm := Function.update p.cntPrepareConfirm (rd.digest cfg)
              (insert k (p.cntPrepareConfirm (rd.digest cfg))) }, []) := by
    change p.handlePrepare (cfg.at i) ⟨rd.digest cfg, rd.seqID, some (cfg.at k).runningNode⟩ = _
    rw [handlePrepare, if_neg, if_neg, if_neg, if_neg, hl.set2DMap hk]
    · dsimp only
      rw [Function.update_self, PbftConfig.at_quorum]
      rfl
    · rw [h.sequenceID]
      exact Nat.lt_irrefl _
    · rw [hreq]
      exact Option.some_ne_none _
    · rw [h.sequenceID]
      exact Nat.lt_irrefl _
    · rw [h.asking, waits, not_or]
      exact ⟨Bool.false_ne_true, fun hw => absurd hw.1 (Nat.not_lt.mpr hst)⟩
  rw [hhandle]
  split
  · rename_i hq
    refine ⟨_, _, rfl, ?_, .inr ⟨rfl, ?_⟩⟩
    · exact
        { h with
          pbftStage := by
            have hstage := h.pbftStage
            rw [hq.2] at hstage
            simp only [Function.update_self, hstage]
            simp
            omega
          requestPool := fun _ => hreq
          prepares := hprep
          isCommitBordcast := by
            dsimp only
            rw [Function.update_self, Function.update_self]
            exact iff_of_true rfl hq.1
          known := fun _ => hknown'
          commits := fun j => by simpa using h.commits j }
    · dsimp only
      rw [Function.update_self]
      exact hq.1
  · rename_i hq
    refine ⟨_, _, rfl, ?_, .inl ⟨rfl, rfl⟩⟩
    exact
      { h with
        pbftStage := by simpa using h.pbftStage
        requestPool := fun _ => hreq
        prepares := hprep
        isCommitBordcast := by
          have hcard := Finset.card_le_card
            (Finset.subset_insert k (p.cntPrepareConfirm (rd.digest cfg)))
          dsimp only
          rw [Function.update_self]
          refine ⟨fun hb => (h.isCommitBordcast.mp hb).trans hcard, fun hq' => ?_⟩
          by_contra hb
          exact hq ⟨hq', by simpa using hb⟩
        known := fun _ => hknown'
        commits := fun j => by simpa using h.commits j }

/-- The end of the round: the node is ready for the next one. -/
theorem Deciding.endRound (h : Deciding cfg rd p i got) (hl : rd.Lawful cfg)
    (confirm : D → Finset ℕ) :
    DecidedRound rd ((p.applied confirm (rd.digest cfg) (rd.after i)).endRound (cfg.at i)) i := by
  have hmain : (p.applied confirm (rd.digest cfg) (rd.after i)).isMain (cfg.at i) =
      decide (rd.leader = i) := h.isMain hl
  have hlock := h.sequenceLock
  rw [endRound_eq, hmain]
  refine ⟨h.view, congrArg (· + 1) h.sequenceID, rfl, h.asking, ?_, h.proposers, ?_, rfl⟩
  · refine (if_neg ?_).trans h.fault
    rintro ⟨hlead, hnone⟩
    rw [hlead] at hlock
    have hnone : p.sequenceLock.isNone = true := hnone
    cases hl : p.sequenceLock <;> simp [hl] at hlock hnone
  · dsimp only
    split
    · rfl
    · rename_i hlead
      rw [Bool.not_eq_true] at hlead
      rw [hlead] at hlock
      exact Option.not_isSome_iff_eq_none.mp (by simpa [applied] using hlock)

/-- A Commit that is let in: it is counted, or the node commits the request. -/
theorem Deciding.commit (h : Deciding cfg rd p i got) (hl : rd.Lawful cfg)
    (hk : k ∈ rd.alive) (hst : 3 ≤ p.pbftStage) :
    ∃ q outs, p.handleMessage (cfg.at i) (RoundMsg.toMessage cfg rd (.commit k) : Message R D) =
        some (q, outs) ∧
      (Deciding cfg rd q i (Function.update got (.commit k) true) ∧ outs = [] ∧
          q.isCommitBordcast (rd.digest cfg) = p.isCommitBordcast (rd.digest cfg) ∨
        DecidedRound rd q i ∧
          outs = .committed rd.seqID (rd.digest cfg) :: (rd.relays i).map .relay ∧
          cfg.quorum ≤ (insert k (p.cntCommitConfirm (rd.digest cfg))).card) := by
  have hknown := h.known_of_stage (Nat.le_of_succ_le hst)
  have hreq := h.requestPool hknown
  have hcommits : ∀ j, j ∈ Function.update p.cntCommitConfirm (rd.digest cfg)
      (insert k (p.cntCommitConfirm (rd.digest cfg))) (rd.digest cfg) ↔
      Function.update got (.commit k) true (.commit j) = true := by
    intro j
    rw [Function.update_self, Finset.mem_insert, h.commits, Function.update_apply]
    by_cases hj : j = k <;> simp [hj]
  have hhandle : p.handleMessage (cfg.at i) (RoundMsg.toMessage cfg rd (.commit k) : Message R D) =
      if cfg.quorum ≤ (insert k (p.cntCommitConfirm (rd.digest cfg))).card then
        some ((p.applied (Function.update p.cntCommitConfirm (rd.digest cfg)
            (insert k (p.cntCommitConfirm (rd.digest cfg)))) (rd.digest cfg)
              (rd.after i)).endRound (cfg.at i),
          .committed rd.seqID (rd.digest cfg) :: (rd.relays i).map .relay)
      else some (p.countCommit (Function.update p.cntCommitConfirm (rd.digest cfg)
            (insert k (p.cntCommitConfirm (rd.digest cfg)))), []) := by
    change p.handleCommit (cfg.at i) ⟨rd.digest cfg, rd.seqID, some (cfg.at k).runningNode⟩ = _
    rw [handleCommit, if_neg, if_neg, hl.set2DMap hk]
    · dsimp only
      rw [Function.update_self, PbftConfig.at_quorum, hreq, h.isReply]
      dsimp only
      rw [h.isMain hl, h.sequenceID, h.curChain, PbftConfig.at_ihm, h.agrees.committed]
      dsimp only
      refine if_congr (and_iff_left rfl) ?_ ?_
      · rw [applied, h.sequenceID]
      · rw [← h.curChain, ← h.sequenceID]
        rfl
    · rw [h.sequenceID]
      exact Nat.lt_irrefl _
    · rw [h.asking, waits, not_or]
      exact ⟨Bool.false_ne_true, fun hw => absurd hw.1 (Nat.not_lt.mpr hst)⟩
  rw [hhandle]
  split
  · rename_i hq
    exact ⟨_, _, rfl, .inr ⟨h.endRound hl _, rfl, hq⟩⟩
  · rename_i hq
    refine ⟨_, _, rfl, .inl ⟨?_, rfl, rfl⟩⟩
    exact
      { h with
        pbftStage := by
          rw [Function.update_of_ne (by simp)]
          exact h.pbftStage
        requestPool := fun _ => hreq
        prepares := fun j => by simpa [countCommit] using h.prepares j
        known := fun _ => by simpa using hknown
        commits := hcommits
        few := by
          rw [countCommit]
          dsimp only
          rw [Function.update_self]
          exact Nat.lt_of_not_le hq }

/-- The sequence number of a message of the three phases. -/
def Message.seqID : Message R D → Option ℕ
  | .prePrepare m => some m.seqID
  | .prepare m => some m.seqID
  | .commit m => some m.seqID
  | _ => none

/-- Whether a message is of a round before this sequence number. -/
def Message.Before (n : ℕ) (m : Message R D) : Prop := ∃ k < n, m.seqID = some k

omit [DecidableEq D] in
@[simp] theorem RoundMsg.toMessage_seqID (m : RoundMsg) :
    (m.toMessage cfg rd : Message R D).seqID = some rd.seqID := by
  cases m <;> rfl

omit [DecidableEq D] in
theorem RoundMsg.not_before (m : RoundMsg) :
    ¬ (m.toMessage cfg rd : Message R D).Before rd.seqID := by
  rintro ⟨k, hk, heq⟩
  rw [toMessage_seqID] at heq
  exact absurd (Option.some.inj heq) hk.ne'

/-- A node turns the messages of earlier rounds away. -/
theorem handleMessage_before {m : Message R D} (hasking : p.asking = none)
    (hm : m.Before p.sequenceID) : p.handleMessage cfg m = some (p, []) := by
  obtain ⟨n, hn, heq⟩ := hm
  have hwait : ∀ stage, ¬ (p.asking.isSome = true ∨ p.waits stage n) := by
    intro stage
    rw [hasking, waits, not_or]
    exact ⟨Bool.false_ne_true, fun hw => absurd hw.2 (Nat.not_le.mpr hn)⟩
  cases m with
  | prePrepare m =>
    obtain rfl := Option.some.inj heq
    change p.handlePrePrepare cfg m = _
    rw [handlePrePrepare, if_neg (hwait 1), if_pos hn]
  | prepare m =>
    obtain rfl := Option.some.inj heq
    change p.handlePrepare cfg m = _
    rw [handlePrepare, if_neg (hwait 2), if_pos hn]
  | commit m =>
    obtain rfl := Option.some.inj heq
    change p.handleCommit cfg m = _
    rw [handleCommit, if_neg (hwait 3), if_pos hn]
  | requestOld m => cases heq
  | sendOld m => cases heq
  | viewChange m => cases heq
  | newView m => cases heq

/-- A node that has committed turns the messages of the round away. -/
theorem Ready.late (h : DecidedRound rd p i) (m : RoundMsg) :
    p.handleMessage (cfg.at i) (m.toMessage cfg rd : Message R D) = some (p, []) :=
  handleMessage_before h.asking
    ⟨rd.seqID, h.sequenceID ▸ Nat.lt_succ_self _, RoundMsg.toMessage_seqID m⟩

/-- Whether a node has counted no vote on a digest. -/
structure Unvoted (p : PbftNode App R D) (d : D) : Prop where
  /-- no Prepare -/
  prepares : p.cntPrepareConfirm d = ∅
  /-- no Commit -/
  commits : p.cntCommitConfirm d = ∅
  /-- it has not broadcast its Commit -/
  isCommitBordcast : p.isCommitBordcast d = false
  /-- it has not committed the request -/
  isReply : p.isReply d = false

omit [DecidableEq D] in
/-- It counts none when none of its counters changes. -/
theorem Unvoted.congr {q : PbftNode App R D} {d : D} (h : Unvoted p d)
    (hp : q.cntPrepareConfirm d = p.cntPrepareConfirm d)
    (hc : q.cntCommitConfirm d = p.cntCommitConfirm d)
    (hb : q.isCommitBordcast d = p.isCommitBordcast d) (hr : q.isReply d = p.isReply d) :
    Unvoted q d :=
  ⟨hp.trans h.prepares, hc.trans h.commits, hb.trans h.isCommitBordcast, hr.trans h.isReply⟩

theorem set2DMap_other {confirm confirm' : D → Finset ℕ} {key d : D} {val : Option Node}
    (h : PbftNode.set2DMap cfg confirm key val = some confirm') (hd : d ≠ key) :
    confirm' d = confirm d := by
  rw [PbftNode.set2DMap.eq_def] at h
  split at h
  · cases h
  · split at h
    · obtain rfl := Option.some.inj h
      exact Function.update_of_ne hd ..
    · cases h

/-- The messages of a round leave the votes on other digests alone. -/
theorem Unvoted.receive {q : PbftNode App R D} {outs : List (Output R D Out)} {d : D}
    (h : Unvoted p d) (hd : d ≠ rd.digest cfg) {m : RoundMsg}
    (hm : p.handleMessage (cfg.at i) (m.toMessage cfg rd : Message R D) = some (q, outs)) :
    Unvoted q d := by
  cases m with
  | proposal =>
    cases handlePrePrepare_transition hm with
    | idle => exact h
    | panicked => exact h.congr rfl rfl rfl rfl
    | moved _ _ hinput => rcases hinput with ⟨hinput, -⟩ | hinput <;> cases hinput
    | stored => exact h.congr rfl rfl rfl rfl
    | prepared => exact h.congr rfl rfl rfl rfl
  | prepare k =>
    cases handlePrepare_transition hm with
    | idle => exact h
    | panicked => exact h.congr rfl rfl rfl rfl
    | moved _ _ hinput => rcases hinput with ⟨hinput, -⟩ | hinput <;> cases hinput
    | prepareCounted _ confirm _ _ hc => exact h.congr (set2DMap_other hc hd) rfl rfl rfl
    | endorsed _ confirm _ _ _ _ _ hc =>
      exact h.congr (set2DMap_other hc hd) rfl (Function.update_of_ne hd ..) rfl
  | commit k =>
    cases handleCommit_transition hm with
    | idle => exact h
    | panicked => exact h.congr rfl rfl rfl rfl
    | moved _ _ hinput => rcases hinput with ⟨hinput, -⟩ | hinput <;> cases hinput
    | commitCounted _ confirm _ _ hc => exact h.congr rfl (set2DMap_other hc hd) rfl rfl
    | blocked _ confirm _ _ hc => exact h.congr rfl (set2DMap_other hc hd) rfl rfl
    | asked _ confirm _ _ _ hc =>
      refine h.congr ?_ ?_ ?_ ?_ <;> rw [askForRequests, endRound_eq] <;>
        first | rfl | exact set2DMap_other hc hd
    | commitPanicked _ confirm _ _ _ _ hc => exact h.congr rfl (set2DMap_other hc hd) rfl rfl
    | committed _ confirm _ _ _ _ _ _ hc =>
      refine h.congr ?_ ?_ ?_ ?_ <;> rw [endRound_eq]
      · rfl
      · exact set2DMap_other hc hd
      · rfl
      · exact Function.update_of_ne hd ..

/-- What a message needs to be let in: the stage of its phase. -/
def RoundMsg.stage : RoundMsg → ℕ
  | .proposal => 1
  | .prepare _ => 2
  | .commit _ => 3

/-- A message that is let in finds the node in its phase. -/
theorem Deciding.stage_le (h : Deciding cfg rd p i got) {m : RoundMsg}
    {res : PbftNode App R D × List (Output R D Out)}
    (hm : p.handleMessage (cfg.at i) (m.toMessage cfg rd : Message R D) = some res) :
    m.stage ≤ p.pbftStage := by
  have hwait : ¬ p.waits m.stage rd.seqID := by
    intro hw
    cases m with
    | proposal =>
      change p.handlePrePrepare (cfg.at i) ⟨rd.request, rd.digest cfg, rd.seqID⟩ = _ at hm
      rw [handlePrePrepare, if_pos (.inr hw)] at hm
      cases hm
    | prepare k =>
      change p.handlePrepare (cfg.at i)
        ⟨rd.digest cfg, rd.seqID, some (cfg.at k).runningNode⟩ = _ at hm
      rw [handlePrepare, if_pos (.inr hw)] at hm
      cases hm
    | commit k =>
      change p.handleCommit (cfg.at i)
        ⟨rd.digest cfg, rd.seqID, some (cfg.at k).runningNode⟩ = _ at hm
      rw [handleCommit, if_pos (.inr hw)] at hm
      cases hm
  rw [waits, not_and_or, Nat.not_lt, Nat.not_le] at hwait
  exact hwait.resolve_right (Nat.not_lt.mpr h.sequenceID.le)

end

end BlockEmulator
