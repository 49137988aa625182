import BlockEmulator.Pbft

/-!
# What one input does to a node

`Transition` lists, once, everything that a step of a node can do, with what holds
when it does it; `nodeStep_transition` is the inversion of `nodeStep`. Every
invariant of the protocol is a case analysis over it.

`LawfulModule` is what consensus relies on in the module it runs: which requests
are proposed, accepted and committed at which height.
-/

namespace BlockEmulator

/-- What consensus relies on in the module it runs, where `number` reads the height
a request is for. -/
structure LawfulModule {App R In Out : Type} (ihm : ExtraOpInConsensus App R Out)
    (ohm : OpInterShards App In) (number : R → Option ℕ) : Prop where
  /-- what is proposed is one above the chain -/
  propose : ∀ {n now app r app'}, ihm.handleinPropose n now app = some (r, app') →
    number r = some (ihm.height app + 1) ∧ ihm.height app' = ihm.height app
  /-- what is accepted is one above the chain -/
  prePrepare : ∀ {app r}, ihm.handleinPrePrepare app r = some true →
    number r = some (ihm.height app + 1)
  /-- what is committed was one above the chain, and is its top now -/
  commit : ∀ {main seqID app r app' outs},
    ihm.handleinCommit main seqID app r = .done app' outs →
    number r = some (ihm.height app + 1) ∧ ihm.height app' = ihm.height app + 1
  /-- what is installed are the next requests, one by one -/
  sequential : ∀ {app som app'}, ihm.handleforSequentialRequest app som = some (true, app') →
    som.seqStartHeight ≤ som.seqEndHeight ∧
    som.oldRequest.length = som.seqEndHeight - som.seqStartHeight + 1 ∧
    ihm.height app' = ihm.height app + som.oldRequest.length ∧
    ∀ k r, som.oldRequest[k]? = some r → number r = some (ihm.height app + k + 1)
  /-- what is installed before a failure stays -/
  sequential_le : ∀ {app som app'},
    ihm.handleforSequentialRequest app som = some (false, app') →
    ihm.height app ≤ ihm.height app'
  /-- messages from outside leave the chain alone -/
  outside : ∀ {app m app'}, ohm.handleMessageOutsidePBFT app m = some app' →
    ihm.height app' = ihm.height app

namespace PbftNode

variable {App R D In Out : Type} [DecidableEq D] {cfg : PbftConfig App R D In Out}

/-! ## The updates as equations -/

omit [DecidableEq D] in
theorem unlockSequence_eq (p : PbftNode App R D) :
    p.unlockSequence =
      { p with
        sequenceLock := none
        fault := if p.sequenceLock.isNone then some .sequenceUnlock else p.fault } := by
  rw [unlockSequence]
  rcases hl : p.sequenceLock with _ | l
  · simp only [Option.isNone_none, if_true]
  · simp

omit [DecidableEq D] in
theorem unlockAskFor_eq (p : PbftNode App R D) :
    p.unlockAskFor =
      { p with
        askForLock := false
        fault := if p.askForLock then p.fault else some .askForUnlock } := by
  rw [unlockAskFor]
  rcases hl : p.askForLock
  · simp only [Bool.false_eq_true, if_false]
  · simp

omit [DecidableEq D] in
theorem endRound_eq (p : PbftNode App R D) :
    p.endRound cfg =
      { p with
        pbftStage := 1
        sequenceLock := if p.isMain cfg then none else p.sequenceLock
        fault :=
          if p.isMain cfg ∧ p.sequenceLock.isNone then some .sequenceUnlock else p.fault } := by
  rw [endRound]
  rcases hm : p.isMain cfg
  · simp
  · simp [unlockSequence_eq]

/-- Recording old requests touches the three maps over requests only. -/
theorem recordOld_eq (seqID : ℕ) (rs : List R) (p : PbftNode App R D) :
    recordOld cfg seqID rs p =
      { p with
        requestPool := (recordOld cfg seqID rs p).requestPool
        height2Digest := (recordOld cfg seqID rs p).height2Digest
        isReply := (recordOld cfg seqID rs p).isReply } := by
  induction rs generalizing seqID p with
  | nil => rfl
  | cons r rs ih =>
    rw [recordOld, ih]
    rfl

/-! ## The transitions -/

/-- The node that handles the recovery of old requests, before it lets go of
`askForLock`. -/
def installed (cfg : PbftConfig App R D In Out) (p : PbftNode App R D) (som : SendOldMessage R)
    (app : App) : PbftNode App R D :=
  { recordOld cfg som.seqStartHeight som.oldRequest { p with curChain := app } with
    sequenceID := som.seqEndHeight + 1 }

/-- It touches the three maps over requests, the chain and the number only. -/
theorem installed_eq (p : PbftNode App R D) (som : SendOldMessage R) (app : App) :
    p.installed cfg som app =
      { p with
        curChain := app
        sequenceID := som.seqEndHeight + 1
        requestPool := (p.installed cfg som app).requestPool
        height2Digest := (p.installed cfg som app).height2Digest
        isReply := (p.installed cfg som app).isReply } := by
  rw [installed, recordOld_eq]

section

variable (p : PbftNode App R D) (som : SendOldMessage R) (app : App)

@[simp] theorem installed_curChain : (p.installed cfg som app).curChain = app := by
  rw [installed_eq]

@[simp] theorem installed_sequenceID :
    (p.installed cfg som app).sequenceID = som.seqEndHeight + 1 := rfl

@[simp] theorem installed_view : (p.installed cfg som app).view = p.view := by
  rw [installed_eq]

@[simp] theorem installed_pbftStage :
    (p.installed cfg som app).pbftStage = p.pbftStage := by
  rw [installed_eq]

@[simp] theorem installed_sequenceLock :
    (p.installed cfg som app).sequenceLock = p.sequenceLock := by
  rw [installed_eq]

@[simp] theorem installed_askForLock :
    (p.installed cfg som app).askForLock = p.askForLock := by
  rw [installed_eq]

@[simp] theorem installed_asking : (p.installed cfg som app).asking = p.asking := by
  rw [installed_eq]

@[simp] theorem installed_proposers :
    (p.installed cfg som app).proposers = p.proposers := by
  rw [installed_eq]

@[simp] theorem installed_fault : (p.installed cfg som app).fault = p.fault := by
  rw [installed_eq]

end

/-- The commit vote of a member is counted. -/
def countCommit (p : PbftNode App R D) (confirm : D → Finset ℕ) : PbftNode App R D :=
  { p with cntCommitConfirm := confirm }

/-- `handleCommit` has accepted a request. -/
def applied (p : PbftNode App R D) (confirm : D → Finset ℕ) (digest : D) (app : App) :
    PbftNode App R D :=
  { p with
    cntCommitConfirm := confirm
    curChain := app
    isReply := Function.update p.isReply digest true
    sequenceID := p.sequenceID + 1 }

/-- A request for a new view is counted. -/
def countChange (p : PbftNode App R D) (m : ViewChangeMsg) : PbftNode App R D :=
  { p with
    viewChangeMap := Function.update p.viewChangeMap ⟨m.nextView, m.seqID⟩
      (insert m.fromNode (p.viewChangeMap ⟨m.nextView, m.seqID⟩)) }

/-- The announcement of a new view is counted. -/
def countView (p : PbftNode App R D) (m : NewViewMsg) : PbftNode App R D :=
  { p with
    newViewMap := Function.update p.newViewMap ⟨m.nextView, m.newSeqID⟩
      (insert m.fromNode (p.newViewMap ⟨m.nextView, m.newSeqID⟩)) }

/-- A new view takes effect. -/
def entered (p : PbftNode App R D) (m : NewViewMsg) : PbftNode App R D :=
  { p.countView m with
    view := Int.bmod m.nextView (2 ^ 32)
    sequenceID := (m.newSeqID % 2 ^ 64).toNat
    pbftStage := 1 }

/-- Whether handling a `NewViewMsg` completes the quorum of its view. -/
def completesView (cfg : PbftConfig App R D In Out) (p : PbftNode App R D) (m : NewViewMsg) :
    Prop :=
  (insert m.fromNode (p.newViewMap ⟨m.nextView, m.newSeqID⟩)).card = cfg.quorum

/-- Whether handling a `ViewChangeMsg` completes the quorum of its view. -/
def completesChange (cfg : PbftConfig App R D In Out) (p : PbftNode App R D)
    (m : ViewChangeMsg) : Prop :=
  (insert m.fromNode (p.viewChangeMap ⟨m.nextView, m.seqID⟩)).card = cfg.quorum

instance (cfg : PbftConfig App R D In Out) (p : PbftNode App R D) (m : NewViewMsg) :
    Decidable (p.completesView cfg m) :=
  inferInstanceAs (Decidable (_ = _))

instance (cfg : PbftConfig App R D In Out) (p : PbftNode App R D) (m : ViewChangeMsg) :
    Decidable (p.completesChange cfg m) :=
  inferInstanceAs (Decidable (_ = _))

/-- Everything that a step of a node can do. -/
inductive Transition (cfg : PbftConfig App R D In Out) (p : PbftNode App R D) :
    NodeInput R D In → PbftNode App R D → List (Output R D Out) → Prop where
  /-- a message is turned away -/
  | idle (m : Message R D) (hm : m.isViewMessage = false) : Transition cfg p (.receive m) p []
  /-- a handler panics -/
  | panicked (input : NodeInput R D In)
      (hm : ∀ m, input = .receive m → m.isViewMessage = false) :
      Transition cfg p input { p with fault := some .panic } []
  /-- the goroutines of `Propose` move on -/
  | moved (input : NodeInput R D In) (proposers : Proposers)
      (h : input = .nextRound ∧ p.pbftStage = 1 ∨ input = .proposeCheck)
      (hl : proposers.locked = p.proposers.locked)
      (ha : proposers.announced = p.proposers.announced)
      (hw : proposers.waiting ≠ p.proposers.waiting → p.isMain cfg = true) :
      Transition cfg p input { p with proposers := proposers } []
  /-- `Propose` takes `sequenceLock` -/
  | locked (hw : p.proposers.waiting ≠ 0) (hl : p.sequenceLock = none) :
      Transition cfg p .proposeLock
        { p with
          sequenceLock := some ⟨p.view, none⟩
          proposers :=
            { p.proposers with
              waiting := p.proposers.waiting - 1
              locked := p.proposers.locked + 1 } } []
  /-- `Propose` broadcasts its request -/
  | broadcast (now : ℕ) (r : R) (app : App) (hk : p.proposers.locked ≠ 0)
      (h : cfg.ihm.handleinPropose cfg.nodeID now p.curChain = some (r, app)) :
      Transition cfg p (.proposeBroadcast now)
        { p.record cfg p.sequenceID r with
          curChain := app
          sequenceLock := p.sequenceLock.map fun l =>
            { l with digest := some (cfg.getDigest r) }
          proposers :=
            { p.proposers with
              locked := p.proposers.locked - 1
              announced := p.proposers.announced + 1 } }
        [.send .all (.prePrepare ⟨r, cfg.getDigest r, p.sequenceID⟩)]
  /-- `Propose` stores the stage -/
  | staged (h : p.proposers.announced ≠ 0) :
      Transition cfg p .proposeStage
        { p with
          pbftStage := 2
          proposers := { p.proposers with announced := p.proposers.announced - 1 } } []
  /-- a timeout -/
  | timedOut :
      Transition cfg p .viewChangePropose { p with pbftStage := 5 }
        [.send .all (.viewChange ⟨p.view, p.viewAfter cfg, p.seqAsInt, cfg.nodeID⟩)]
  /-- a PrePrepare that is stored but not prepared -/
  | stored (m : PrePrepare R D) (ha : p.asking = none) (hs : p.sequenceID ≤ m.seqID)
      (hd : cfg.getDigest m.requestMsg = m.digest) :
      Transition cfg p (.receive (.prePrepare m)) (p.record cfg m.seqID m.requestMsg) []
  /-- a PrePrepare that is prepared -/
  | prepared (m : PrePrepare R D) (ha : p.asking = none) (hs : m.seqID = p.sequenceID)
      (hd : cfg.getDigest m.requestMsg = m.digest)
      (hv : cfg.ihm.handleinPrePrepare p.curChain m.requestMsg = some true) :
      Transition cfg p (.receive (.prePrepare m))
        { p.record cfg m.seqID m.requestMsg with pbftStage := p.pbftStage + 1 }
        [.send .all (.prepare ⟨m.digest, m.seqID, some cfg.runningNode⟩)]
  /-- a Prepare that is counted -/
  | prepareCounted (m : Prepare D) (confirm : D → Finset ℕ) (ha : p.asking = none)
      (hs : m.seqID = p.sequenceID)
      (hc : set2DMap cfg p.cntPrepareConfirm m.digest m.senderNode = some confirm)
      (hq : ¬ (cfg.quorum ≤ (confirm m.digest).card ∧ p.isCommitBordcast m.digest = false)) :
      Transition cfg p (.receive (.prepare m)) { p with cntPrepareConfirm := confirm } []
  /-- a Prepare that completes its quorum: this node is ready to commit -/
  | endorsed (m : Prepare D) (confirm : D → Finset ℕ) (r : R) (ha : p.asking = none)
      (hst : 2 ≤ p.pbftStage)
      (hs : m.seqID = p.sequenceID) (hr : p.requestPool m.digest = some r)
      (hc : set2DMap cfg p.cntPrepareConfirm m.digest m.senderNode = some confirm)
      (hq : cfg.quorum ≤ (confirm m.digest).card) (hb : p.isCommitBordcast m.digest = false) :
      Transition cfg p (.receive (.prepare m))
        { p with
          cntPrepareConfirm := confirm
          isCommitBordcast := Function.update p.isCommitBordcast m.digest true
          pbftStage := p.pbftStage + 1 }
        [.send .all (.commit ⟨m.digest, m.seqID, some cfg.runningNode⟩)]
  /-- a Commit that is counted, and no more -/
  | commitCounted (m : Commit D) (confirm : D → Finset ℕ) (ha : p.asking = none)
      (hs : p.sequenceID ≤ m.seqID)
      (hc : set2DMap cfg p.cntCommitConfirm m.digest m.senderNode = some confirm) :
      Transition cfg p (.receive (.commit m)) (p.countCommit confirm) []
  /-- a Commit that finds the request missing and `askForLock` taken -/
  | blocked (m : Commit D) (confirm : D → Finset ℕ) (ha : p.asking = none)
      (hs : p.sequenceID ≤ m.seqID)
      (hc : set2DMap cfg p.cntCommitConfirm m.digest m.senderNode = some confirm)
      (hq : cfg.quorum ≤ (confirm m.digest).card) (hr : p.requestPool m.digest = none) :
      Transition cfg p (.receive (.commit m))
        { p.countCommit confirm with asking := some m.seqID } []
  /-- a Commit that finds the request missing and asks for it -/
  | asked (m : Commit D) (confirm : D → Finset ℕ) (ha : p.asking = none)
      (hst : 3 ≤ p.pbftStage) (hs : p.sequenceID ≤ m.seqID)
      (hc : set2DMap cfg p.cntCommitConfirm m.digest m.senderNode = some confirm)
      (hq : cfg.quorum ≤ (confirm m.digest).card) (hn : p.isReply m.digest = false)
      (hr : p.requestPool m.digest = none) (hl : p.askForLock = false) :
      Transition cfg p (.receive (.commit m)) ((p.countCommit confirm).askForRequests cfg m.seqID).1
        ((p.countCommit confirm).askForRequests cfg m.seqID).2
  /-- a Commit whose request panics -/
  | commitPanicked (m : Commit D) (confirm : D → Finset ℕ) (r : R) (app : App)
      (ha : p.asking = none) (hs : p.sequenceID ≤ m.seqID)
      (hc : set2DMap cfg p.cntCommitConfirm m.digest m.senderNode = some confirm)
      (hq : cfg.quorum ≤ (confirm m.digest).card) (hn : p.isReply m.digest = false)
      (hr : p.requestPool m.digest = some r)
      (h : cfg.ihm.handleinCommit (p.isMain cfg) p.sequenceID p.curChain r = .panic app) :
      Transition cfg p (.receive (.commit m))
        { p.countCommit confirm with curChain := app, fault := some .panic } []
  /-- a Commit that commits its request -/
  | committed (m : Commit D) (confirm : D → Finset ℕ) (r : R) (app : App) (outs : List Out)
      (ha : p.asking = none) (hst : 3 ≤ p.pbftStage) (hs : p.sequenceID ≤ m.seqID)
      (hc : set2DMap cfg p.cntCommitConfirm m.digest m.senderNode = some confirm)
      (hq : cfg.quorum ≤ (confirm m.digest).card) (hn : p.isReply m.digest = false)
      (hr : p.requestPool m.digest = some r)
      (h : cfg.ihm.handleinCommit (p.isMain cfg) p.sequenceID p.curChain r = .done app outs) :
      Transition cfg p (.receive (.commit m)) ((p.applied confirm m.digest app).endRound cfg)
        (.committed p.sequenceID m.digest :: outs.map .relay)
  /-- the blocked `handleCommit` goes on -/
  | resumed (seqID : ℕ) (ha : p.asking = some seqID) (hl : p.askForLock = false) :
      Transition cfg p .askForRequests (p.askForRequests cfg seqID).1
        (p.askForRequests cfg seqID).2
  /-- the leader answers with old requests -/
  | answered (m : RequestOldMessage) (sender : Node) (hm : p.isMain cfg = true)
      (hs : m.senderNode = some sender)
      (hne : p.collectOld m.seqStartHeight (m.seqEndHeight + 1 - m.seqStartHeight) ≠ []) :
      Transition cfg p (.receive (.requestOld m)) p
        [.send (.addr sender.ipAddr)
          (.sendOld ⟨m.seqStartHeight,
            m.seqStartHeight +
              (p.collectOld m.seqStartHeight (m.seqEndHeight + 1 - m.seqStartHeight)).length - 1,
            p.collectOld m.seqStartHeight (m.seqEndHeight + 1 - m.seqStartHeight)⟩)]
  /-- old requests that cannot all be installed -/
  | oldFailed (m : SendOldMessage R) (app : App)
      (h : cfg.ihm.handleforSequentialRequest p.curChain m = some (false, app)) :
      Transition cfg p (.receive (.sendOld m))
        (unlockAskFor { p with curChain := app, sequenceID := cfg.ihm.height app + 1 }) []
  /-- old requests that are installed -/
  | oldInstalled (m : SendOldMessage R) (app : App)
      (h : cfg.ihm.handleforSequentialRequest p.curChain m = some (true, app)) :
      Transition cfg p (.receive (.sendOld m)) (p.installed cfg m app).unlockAskFor []
  /-- old requests that are installed, and the next one stored is prepared -/
  | oldPrepared (m : SendOldMessage R) (app : App) (r : R)
      (h : cfg.ihm.handleforSequentialRequest p.curChain m = some (true, app))
      (hr : (p.installed cfg m app).storedNext = some r)
      (hv : cfg.ihm.handleinPrePrepare app r = some true) :
      Transition cfg p (.receive (.sendOld m)) (p.installed cfg m app).unlockAskFor
        [.send (.others (cfg.ipOf cfg.nodeID))
          (.prepare ⟨cfg.getDigest r, m.seqEndHeight + 1, some cfg.runningNode⟩)]
  /-- old requests that are installed, and the next one stored panics -/
  | oldPanicked (m : SendOldMessage R) (app : App)
      (h : cfg.ihm.handleforSequentialRequest p.curChain m = some (true, app)) :
      Transition cfg p (.receive (.sendOld m))
        { p.installed cfg m app with fault := some .panic } []
  /-- a request for a new view is counted -/
  | changeCounted (m : ViewChangeMsg) (hq : ¬ p.completesChange cfg m) :
      Transition cfg p (.receive (.viewChange m)) (p.countChange m) []
  /-- requests for a new view make a quorum: it is announced -/
  | changeAnnounced (m : ViewChangeMsg) (hq : p.completesChange cfg m) :
      Transition cfg p (.receive (.viewChange m)) (p.countChange m)
        [.send .all (.newView ⟨p.view, p.viewAfter cfg, p.seqAsInt, cfg.nodeID⟩)]
  /-- the announcement of a new view is counted -/
  | viewCounted (m : NewViewMsg) (hq : ¬ p.completesView cfg m) :
      Transition cfg p (.receive (.newView m)) (p.countView m) []
  /-- announcements make a quorum: the new view takes effect -/
  | viewEntered (m : NewViewMsg) (hq : p.completesView cfg m) :
      Transition cfg p (.receive (.newView m)) (p.entered m) []
  /-- a message from outside is handled -/
  | outside (m : In) (app : App)
      (h : cfg.ohm.handleMessageOutsidePBFT p.curChain m = some app) :
      Transition cfg p (.outside m) { p with curChain := app } []

/-! ## Inversion -/

variable {p p' : PbftNode App R D} {outs : List (Output R D Out)}

theorem handlePrePrepare_transition {m : PrePrepare R D}
    (h : p.handlePrePrepare cfg m = some (p', outs)) :
    Transition cfg p (.receive (.prePrepare m)) p' outs := by
  rw [handlePrePrepare] at h
  split at h
  · cases h
  rename_i hw
  have ha : p.asking = none := by simpa using (not_or.mp hw).1
  split at h
  · cases h
    exact .idle _ rfl
  rename_i hlow
  split at h
  · cases h
    exact .idle _ rfl
  rename_i hd
  have hd : cfg.getDigest m.requestMsg = m.digest := not_not.mp hd
  split at h
  · cases h
    exact .stored m ha (Nat.le_of_not_lt hlow) hd
  rename_i hhigh
  have hs : m.seqID = p.sequenceID := by omega
  split at h
  · cases h
    exact .panicked _ fun m hm => by cases hm; rfl
  · cases h
    exact .stored m ha hs.ge hd
  · rename_i hv
    cases h
    exact .prepared m ha hs hd hv

theorem handlePrepare_transition {m : Prepare D}
    (h : p.handlePrepare cfg m = some (p', outs)) :
    Transition cfg p (.receive (.prepare m)) p' outs := by
  rw [handlePrepare] at h
  split at h
  · cases h
  rename_i hw
  obtain ⟨ha, hst⟩ := not_or.mp hw
  have ha : p.asking = none := by simpa using ha
  split at h
  · cases h
    exact .idle _ rfl
  rename_i hlow
  split at h
  · cases h
    exact .idle _ rfl
  rename_i hr
  obtain ⟨r, hr⟩ := Option.ne_none_iff_exists'.mp hr
  split at h
  · cases h
    exact .idle _ rfl
  rename_i hhigh
  have hs : m.seqID = p.sequenceID := by omega
  have hst : 2 ≤ p.pbftStage := by
    by_contra hlt
    exact hst ⟨by omega, hs.ge⟩
  split at h
  · cases h
    exact .idle _ rfl
  rename_i confirm hc
  split at h
  · rename_i hq
    cases h
    exact .endorsed m confirm r ha hst hs hr hc hq.1 hq.2
  · rename_i hq
    cases h
    exact .prepareCounted m confirm ha hs hc hq

theorem handleCommit_transition {m : Commit D}
    (h : p.handleCommit cfg m = some (p', outs)) :
    Transition cfg p (.receive (.commit m)) p' outs := by
  rw [handleCommit] at h
  split at h
  · cases h
  rename_i hw
  obtain ⟨ha, hst⟩ := not_or.mp hw
  have ha : p.asking = none := by simpa using ha
  split at h
  · cases h
    exact .idle _ rfl
  rename_i hlow
  have hs : p.sequenceID ≤ m.seqID := Nat.le_of_not_lt hlow
  have hst : 3 ≤ p.pbftStage := by
    by_contra hlt
    exact hst ⟨by omega, hs⟩
  split at h
  · cases h
    exact .idle _ rfl
  rename_i confirm hc
  dsimp only at h
  split at h
  · rename_i hq
    split at h
    · rename_i hr
      split at h
      · cases h
        exact .blocked m confirm ha hs hc hq.1 hr
      · rename_i hl
        cases h
        exact .asked m confirm ha hst hs hc hq.1 hq.2 hr (by simpa using hl)
    · rename_i r hr
      split at h
      · rename_i app hi
        cases h
        exact .commitPanicked m confirm r app ha hs hc hq.1 hq.2 hr hi
      · cases h
        exact .commitCounted m confirm ha hs hc
      · rename_i app louts hi
        cases h
        exact .committed m confirm r app louts ha hst hs hc hq.1 hq.2 hr hi
  · cases h
    exact .commitCounted m confirm ha hs hc

theorem handleRequestOldSeq_transition (m : RequestOldMessage) :
    Transition cfg p (.receive (.requestOld m)) (p.handleRequestOldSeq cfg m).1
      (p.handleRequestOldSeq cfg m).2 := by
  rw [handleRequestOldSeq]
  split
  · exact .idle _ rfl
  rename_i hm
  split
  · exact .panicked _ fun m hm => by cases hm; rfl
  rename_i sender hs
  dsimp only
  split
  · exact .idle _ rfl
  · rename_i hne
    exact .answered m sender (by simpa using hm) hs (by simpa using hne)

theorem handleSendOldSeq_transition (m : SendOldMessage R) :
    Transition cfg p (.receive (.sendOld m)) (p.handleSendOldSeq cfg m).1
      (p.handleSendOldSeq cfg m).2 := by
  rw [handleSendOldSeq]
  split
  · exact .panicked _ fun m hm => by cases hm; rfl
  · rename_i app h
    exact .oldFailed m app h
  · rename_i app h
    dsimp only
    split
    · exact .oldInstalled m app h
    · rename_i r hr
      split
      · exact .oldPanicked m app h
      · exact .oldInstalled m app h
      · rename_i hv
        exact .oldPrepared m app r h hr hv

theorem handleViewChangeMsg_transition (m : ViewChangeMsg) :
    Transition cfg p (.receive (.viewChange m)) (p.handleViewChangeMsg cfg m).1
      (p.handleViewChangeMsg cfg m).2 := by
  rw [handleViewChangeMsg]
  split
  · rename_i hq
    exact .changeAnnounced m hq
  · rename_i hq
    exact .changeCounted m hq

theorem handleNewViewMsg_transition (m : NewViewMsg) :
    Transition cfg p (.receive (.newView m)) (p.handleNewViewMsg cfg m) [] := by
  rw [handleNewViewMsg]
  split
  · rename_i hq
    exact .viewEntered m hq
  · rename_i hq
    exact .viewCounted m hq

/-- **Inversion of a step**: what happened is one of the transitions. -/
theorem nodeStep_transition {input : NodeInput R D In}
    (h : p.nodeStep cfg input = some (p', outs)) :
    p.fault = none ∧ Transition cfg p input p' outs := by
  rw [nodeStep] at h
  split at h
  · cases h
  rename_i hf
  refine ⟨by simpa using hf, ?_⟩
  cases input with
  | nextRound =>
    rw [handleInput] at h
    split at h
    · rename_i hst
      cases h
      exact .moved _ _ (.inl ⟨rfl, hst⟩) rfl rfl fun hw => absurd rfl hw
    · cases h
  | proposeCheck =>
    rw [handleInput] at h
    split at h
    · cases h
    split at h
    · rename_i hm
      cases h
      exact .moved _ _ (.inr rfl) rfl rfl fun _ => hm
    · cases h
      exact .moved _ _ (.inr rfl) rfl rfl fun hw => absurd rfl hw
  | proposeLock =>
    rw [handleInput] at h
    split at h
    · cases h
    rename_i hw
    cases h
    exact .locked (not_or.mp hw).1 (by simpa using (not_or.mp hw).2)
  | proposeBroadcast now =>
    rw [handleInput] at h
    split at h
    · cases h
    rename_i hk
    have h := Option.some.inj h
    rw [proposeBroadcast] at h
    split at h
    · cases h
      exact .panicked _ fun m hm => by cases hm
    · rename_i r app hr
      cases h
      exact .broadcast now r app hk hr
  | proposeStage =>
    rw [handleInput] at h
    split at h
    · cases h
    rename_i hk
    cases h
    exact .staged hk
  | viewChangePropose =>
    cases h
    exact .timedOut
  | askForRequests =>
    rw [handleInput] at h
    split at h
    · cases h
    rename_i seqID ha
    split at h
    · cases h
    rename_i hl
    have h := Option.some.inj h
    have hres : Transition cfg p .askForRequests (p.askForRequests cfg seqID).1
        (p.askForRequests cfg seqID).2 := .resumed seqID ha (by simpa using hl)
    rw [h] at hres
    exact hres
  | receive m =>
    rw [handleInput] at h
    cases m with
    | prePrepare m => exact handlePrePrepare_transition h
    | prepare m => exact handlePrepare_transition h
    | commit m => exact handleCommit_transition h
    | requestOld m =>
      have hres : Transition cfg p (.receive (.requestOld m)) (p.handleRequestOldSeq cfg m).1
          (p.handleRequestOldSeq cfg m).2 := handleRequestOldSeq_transition m
      rw [Option.some.inj h] at hres
      exact hres
    | sendOld m =>
      have hres : Transition cfg p (.receive (.sendOld m)) (p.handleSendOldSeq cfg m).1
          (p.handleSendOldSeq cfg m).2 := handleSendOldSeq_transition m
      rw [Option.some.inj h] at hres
      exact hres
    | viewChange m =>
      have hres : Transition cfg p (.receive (.viewChange m)) (p.handleViewChangeMsg cfg m).1
          (p.handleViewChangeMsg cfg m).2 := handleViewChangeMsg_transition m
      rw [Option.some.inj h] at hres
      exact hres
    | newView m =>
      cases h
      exact handleNewViewMsg_transition m
  | outside m =>
    rw [handleInput] at h
    split at h
    · cases h
      exact .panicked _ fun m hm => by cases hm
    · rename_i app happ
      cases h
      exact .outside m app happ

end PbftNode

end BlockEmulator
