import BlockEmulator.SequenceDrift

/-!
# The locks of a node

`sequenceLock` is taken by a round of `Propose` and released by `handleCommit`, at a
node that leads, whoever holds it. `askForLock` is taken by a `handleCommit` that is
left behind and released by every `SendOldMessage`. Taking and releasing are in
different handlers, and nothing but the order of messages matches them.

* `LocksSound` — no unlocked mutex has been unlocked, and a round that holds
  `sequenceLock` is one of the current view that is not committed.
* `LocksKept` — the condition on the order of messages, on the state before each.
* `consensus_locks` — in every run that meets the condition, the locks are sound.
-/

namespace BlockEmulator

open StepSystem PbftNode

variable {App R D In Out : Type}

/-! ## The property and the condition -/

/-- The locks of a node are in order. -/
structure LocksSound (p : PbftNode App R D) : Prop where
  /-- `sequenceLock` was not unlocked while unlocked -/
  sequenceUnlock : p.fault ≠ some .sequenceUnlock
  /-- `askForLock` was not unlocked while unlocked -/
  askForUnlock : p.fault ≠ some .askForUnlock
  /-- the view of the round that holds `sequenceLock` has not ended -/
  view : ∀ l ∈ p.sequenceLock, l.view = p.view
  /-- the round that holds `sequenceLock` is not committed -/
  pending : ∀ l ∈ p.sequenceLock, ∀ d ∈ l.digest, p.isReply d = false

/-- Whether `HandleinCommit` accepts. -/
def CommitResult.isDone : CommitResult App Out → Bool
  | .done _ _ => true
  | _ => false

variable [DecidableEq D]

/-- Whether a Commit ends the round at a node: it completes the quorum of a request
that is not committed, and the request is missing and can be asked for, or it is
accepted. -/
def endsRound (cfg : PbftConfig App R D In Out) (p : PbftNode App R D) (m : Commit D) : Bool :=
  decide (p.sequenceID ≤ m.seqID) && !p.isReply m.digest &&
    ((set2DMap cfg p.cntCommitConfirm m.digest m.senderNode).any fun confirm =>
      decide (cfg.quorum ≤ (confirm m.digest).card)) &&
    match p.requestPool m.digest with
    | none => !p.askForLock
    | some r => (cfg.ihm.handleinCommit (p.isMain cfg) p.sequenceID p.curChain r).isDone

/-- The condition on the order of messages.

* A node that ends a round while it leads holds `sequenceLock`; one that does not
  lead does not commit a request of its own for which it still holds the lock.
* Old requests come only while an own request for them is unanswered, and the
  request of the round that holds `sequenceLock` is not among them.
* A new view takes effect only while `sequenceLock` is free, or changes nothing. -/
def LocksKept (cfg : PbftConfig App R D In Out) (p : PbftNode App R D) :
    NodeInput R D In → Prop
  | .receive (.commit m) => endsRound cfg p m = true →
      (p.isMain cfg = true → p.sequenceLock.isSome = true) ∧
      (p.isMain cfg = false → (p.requestPool m.digest).isSome = true →
        ∀ l ∈ p.sequenceLock, l.digest ≠ some m.digest)
  | .askForRequests => p.askForLock = false → p.isMain cfg = true →
      p.sequenceLock.isSome = true
  | .receive (.sendOld m) => p.askForLock = true ∧
      ∀ l ∈ p.sequenceLock, ∀ r ∈ m.oldRequest, l.digest ≠ some (cfg.getDigest r)
  | .receive (.newView m) => p.completesView cfg m →
      p.sequenceLock.isNone = true ∨ Int.bmod m.nextView (2 ^ 32) = p.view
  | _ => True

/-- What is committed lies below the height of the chain. -/
structure Filed (cfg : PbftConfig App R D In Out) (number : R → Option ℕ)
    (p : PbftNode App R D) : Prop where
  /-- requests are stored under their digests -/
  pool : ∀ d r, p.requestPool d = some r → cfg.getDigest r = d
  /-- committed requests are of heights the chain has reached -/
  replied : p.fault = none → ∀ d, p.isReply d = true →
    ∃ r k, cfg.getDigest r = d ∧ number r = some k ∧ k ≤ cfg.ihm.height p.curChain

/-! ## Steps -/

namespace PbftNode

variable {cfg : PbftConfig App R D In Out} {number : R → Option ℕ}
  {p p' : PbftNode App R D} {input : NodeInput R D In} {outs : List (Output R D Out)}

theorem recordOld_isReply {n : ℕ} {rs : List R} {d : D}
    (h : (recordOld cfg n rs p).isReply d = true) :
    p.isReply d = true ∨ ∃ r ∈ rs, cfg.getDigest r = d := by
  induction rs generalizing n p with
  | nil => exact .inl h
  | cons a rs ih =>
    rcases ih h with h | ⟨r, hr, hd⟩
    · simp only [Function.update_apply] at h
      split at h
      · rename_i hd
        exact .inr ⟨a, List.mem_cons_self, hd.symm⟩
      · exact .inl h
    · exact .inr ⟨r, List.mem_cons_of_mem _ hr, hd⟩

/-- A request is committed by a Commit, or when it is installed as an old one. -/
theorem Transition.isReply (h : Transition cfg p input p' outs) {d : D}
    (hd : p'.isReply d = true) :
    p.isReply d = true ∨
      (∃ m r app outs, input = .receive (.commit m) ∧ d = m.digest ∧
        p.requestPool d = some r ∧ p'.curChain = app ∧
        cfg.ihm.handleinCommit (p.isMain cfg) p.sequenceID p.curChain r = .done app outs) ∨
      ∃ m app r, input = .receive (.sendOld m) ∧ r ∈ m.oldRequest ∧ cfg.getDigest r = d ∧
        p'.curChain = app ∧
        cfg.ihm.handleforSequentialRequest p.curChain m = some (true, app) := by
  have hinstalled : ∀ m app, input = .receive (.sendOld m) → p'.curChain = app →
      cfg.ihm.handleforSequentialRequest p.curChain m = some (true, app) →
      (p.installed cfg m app).isReply d = true →
      p.isReply d = true ∨ ∃ m app r, input = .receive (.sendOld m) ∧ r ∈ m.oldRequest ∧
        cfg.getDigest r = d ∧ p'.curChain = app ∧
        cfg.ihm.handleforSequentialRequest p.curChain m = some (true, app) := by
    intro m app hin hcur hres hr
    rcases recordOld_isReply (p := { p with curChain := app }) hr with hr | ⟨r, hr, hdig⟩
    · exact .inl hr
    · exact .inr ⟨m, app, r, hin, hr, hdig, hcur, hres⟩
  have hchain : ∀ m app, (p.installed cfg m app).unlockAskFor.curChain = app := by
    intro m app
    rw [unlockAskFor_eq]
    exact installed_curChain p m app
  cases h with
  | committed m confirm r app outs ha hst hs hc hq hn hr hcm =>
    simp only [endRound_eq, applied, Function.update_apply] at hd
    split at hd
    · rename_i hdm
      subst hdm
      refine .inr (.inl ⟨m, r, app, outs, rfl, rfl, hr, ?_, hcm⟩)
      simp [endRound_eq, applied]
    · exact .inl hd
  | asked m confirm =>
    refine .inl ?_
    simpa [askForRequests, endRound_eq, countCommit] using hd
  | resumed seqID =>
    refine .inl ?_
    simpa [askForRequests, endRound_eq] using hd
  | oldFailed m app =>
    rw [unlockAskFor_eq] at hd
    exact .inl hd
  | oldInstalled m app hres =>
    have hcur := hchain m app
    rw [unlockAskFor_eq] at hd
    exact (hinstalled m app rfl hcur hres hd).imp_right .inr
  | oldPrepared m app r hres =>
    have hcur := hchain m app
    rw [unlockAskFor_eq] at hd
    exact (hinstalled m app rfl hcur hres hd).imp_right .inr
  | oldPanicked m app hres =>
    exact (hinstalled m app rfl (installed_curChain p m app) hres hd).imp_right .inr
  | _ => exact .inl hd

/-- No step of a live node lowers its chain. -/
theorem Transition.height_le (h : Transition cfg p input p' outs)
    (hlaw : LawfulModule cfg.ihm cfg.ohm number) (hf : p'.fault = none) :
    cfg.ihm.height p.curChain ≤ cfg.ihm.height p'.curChain := by
  cases h with
  | broadcast now r app hk hr => exact (hlaw.propose hr).2.ge
  | commitPanicked => cases hf
  | oldPanicked => cases hf
  | asked m confirm => simp [askForRequests, endRound_eq, countCommit]
  | resumed seqID => simp [askForRequests, endRound_eq]
  | committed m confirm r app outs ha hst hs hc hq hn hr hcm =>
    rw [endRound_eq]
    have := (hlaw.commit hcm).2
    show cfg.ihm.height p.curChain ≤ cfg.ihm.height app
    omega
  | oldFailed m app hres =>
    rw [unlockAskFor_eq]
    exact hlaw.sequential_le hres
  | oldInstalled m app hres =>
    rw [unlockAskFor_eq, installed_eq]
    have := (hlaw.sequential hres).2.2.1
    show cfg.ihm.height p.curChain ≤ cfg.ihm.height app
    omega
  | oldPrepared m app r hres =>
    rw [unlockAskFor_eq, installed_eq]
    have := (hlaw.sequential hres).2.2.1
    show cfg.ihm.height p.curChain ≤ cfg.ihm.height app
    omega
  | outside m app hres => exact (hlaw.outside hres).ge
  | _ => exact le_refl _

end PbftNode

variable {cfg : PbftConfig App R D In Out} {number : R → Option ℕ}
  {p p' : PbftNode App R D} {input : NodeInput R D In} {outs : List (Output R D Out)}

/-- **Every step keeps committed requests below the height of the chain.** -/
theorem Filed.step (hlaw : LawfulModule cfg.ihm cfg.ohm number) (hp : Filed cfg number p)
    (hf : p.fault = none) (h : Transition cfg p input p' outs) : Filed cfg number p' where
  pool d r hr := by
    rcases h.requestPool hr with hr | ⟨hr, -⟩
    · exact hp.pool d r hr
    · exact hr
  replied hf' d hd := by
    rcases h.isReply hd with hd | ⟨m, r, app, couts, -, -, hr, hcur, hcm⟩ |
      ⟨m, app, r, -, hr, hdig, hcur, hres⟩
    · obtain ⟨r, k, hdig, hnum, hk⟩ := hp.replied hf d hd
      exact ⟨r, k, hdig, hnum, hk.trans (h.height_le hlaw hf')⟩
    · obtain ⟨hnum, hheight⟩ := hlaw.commit hcm
      exact ⟨r, _, hp.pool d r hr, hnum, by rw [hcur, hheight]⟩
    · obtain ⟨-, -, hheight, hall⟩ := hlaw.sequential hres
      obtain ⟨k, hk, hget⟩ := List.getElem_of_mem hr
      refine ⟨r, _, hdig, hall k r (by rw [List.getElem?_eq_getElem hk, hget]), ?_⟩
      rw [hcur, hheight]
      omega

omit [DecidableEq D] in
/-- The end of a round leaves the locks sound: the leader held the lock it releases,
and elsewhere the lock is not that of a committed round. -/
theorem LocksSound.endRound {q : PbftNode App R D} (hf : q.fault = none)
    (hm : q.isMain cfg = true → q.sequenceLock.isSome = true)
    (hv : ∀ l ∈ q.sequenceLock, l.view = q.view)
    (hd : q.isMain cfg = false → ∀ l ∈ q.sequenceLock, ∀ d ∈ l.digest, q.isReply d = false) :
    LocksSound (q.endRound cfg) := by
  rw [endRound_eq]
  rcases hmain : q.isMain cfg
  · refine ⟨?_, ?_, ?_, ?_⟩
    · simp [hf]
    · simp [hf]
    · simpa using hv
    · simpa using hd hmain
  · have hsome := hm hmain
    have hnone : q.sequenceLock.isNone = false := by
      rw [Option.isNone_eq_false_iff]
      exact hsome
    refine ⟨?_, ?_, ?_, ?_⟩
    · simp [hf, hnone]
    · simp [hf, hnone]
    · simp
    · simp

omit [DecidableEq D] in
/-- Releasing `askForLock` while it is held leaves the locks sound. -/
theorem LocksSound.unlockAskFor {q : PbftNode App R D} (hf : q.fault = none)
    (hl : q.askForLock = true) (hv : ∀ l ∈ q.sequenceLock, l.view = q.view)
    (hd : ∀ l ∈ q.sequenceLock, ∀ d ∈ l.digest, q.isReply d = false) :
    LocksSound q.unlockAskFor := by
  rw [unlockAskFor_eq]
  refine ⟨?_, ?_, hv, hd⟩
  · simp [hl, hf]
  · simp [hl, hf]

/-- What a Commit does when it is handled is what `endsRound` says. -/
theorem endsRound_of {m : Commit D} {confirm : D → Finset ℕ} (hs : p.sequenceID ≤ m.seqID)
    (hc : set2DMap cfg p.cntCommitConfirm m.digest m.senderNode = some confirm)
    (hq : cfg.quorum ≤ (confirm m.digest).card) (hn : p.isReply m.digest = false)
    (h : match p.requestPool m.digest with
      | none => p.askForLock = false
      | some r =>
        (cfg.ihm.handleinCommit (p.isMain cfg) p.sequenceID p.curChain r).isDone = true) :
    endsRound cfg p m = true := by
  rw [endsRound, hc]
  rcases hr : p.requestPool m.digest with _ | r
  · rw [hr] at h
    simp [hs, hn, hq, h]
  · rw [hr] at h
    simp [hs, hn, hq, h]

/-- **Every step that meets the condition keeps the locks sound.** -/
theorem LocksSound.step (hlaw : LawfulModule cfg.ihm cfg.ohm number)
    (hdig : Function.Injective cfg.getDigest) (hp : LocksSound p) (hfiled : Filed cfg number p)
    (hf : p.fault = none) (hok : LocksKept cfg p input)
    (h : Transition cfg p input p' outs) : LocksSound p' := by
  -- installing old requests commits nothing that holds the lock
  have hinstalled : ∀ m app, input = .receive (.sendOld m) →
      p.askForLock = true ∧ ∀ l ∈ p.sequenceLock, ∀ d ∈ l.digest,
        (p.installed cfg m app).isReply d = false := by
    rintro m app rfl
    obtain ⟨hask, hdigest⟩ := hok
    refine ⟨hask, fun l hl d hd => ?_⟩
    by_contra hrep
    have hrep : (p.installed cfg m app).isReply d = true := by simpa using hrep
    rcases recordOld_isReply (p := { p with curChain := app }) hrep with hrep | ⟨r, hr, hrd⟩
    · have hfalse : p.isReply d = false := hp.pending l hl d hd
      rw [hfalse] at hrep
      cases hrep
    · exact hdigest l hl r hr (hrd.symm ▸ hd)
  have hunlock : ∀ m app, input = .receive (.sendOld m) →
      LocksSound (p.installed cfg m app).unlockAskFor := by
    intro m app hin
    obtain ⟨hask, hrep⟩ := hinstalled m app hin
    refine LocksSound.unlockAskFor (by simpa using hf) (by simpa using hask) ?_ ?_
    · simpa using hp.view
    · simpa using hrep
  have hpanic : some Fault.panic ≠ some .sequenceUnlock ∧ some Fault.panic ≠ some .askForUnlock := by
    decide
  cases h with
  | panicked => exact ⟨hpanic.1, hpanic.2, hp.view, hp.pending⟩
  | locked hw hl =>
    refine ⟨hp.sequenceUnlock, hp.askForUnlock, ?_, ?_⟩
    · rintro l ⟨⟩
      rfl
    · rintro l ⟨⟩ d ⟨⟩
  | broadcast now r app hk hr =>
    refine ⟨hp.sequenceUnlock, hp.askForUnlock, ?_, ?_⟩
    · intro l hl
      obtain ⟨l₀, hl₀, rfl⟩ := Option.map_eq_some_iff.mp hl
      exact hp.view l₀ hl₀
    · -- the request of the round is above the chain, so it is not committed
      intro l hl d hd
      obtain ⟨l₀, hl₀, rfl⟩ := Option.map_eq_some_iff.mp hl
      obtain rfl := Option.some.inj hd
      by_contra hrep
      obtain ⟨r', k, hr', hnum, hk⟩ := hfiled.replied hf _ (by simpa [record] using hrep)
      obtain rfl : r' = r := hdig hr'
      have hlt := Option.some.inj (hnum.symm.trans (hlaw.propose hr).1)
      omega
  | asked m confirm ha hst hs hc hq hn hr hl =>
    have hend : endsRound cfg p m = true :=
      endsRound_of hs hc hq hn (by rw [hr]; exact hl)
    exact LocksSound.endRound hf (hok hend).1 hp.view fun _ => hp.pending
  | resumed seqID ha hl =>
    exact LocksSound.endRound hf (hok hl) hp.view fun _ => hp.pending
  | commitPanicked => exact ⟨hpanic.1, hpanic.2, hp.view, hp.pending⟩
  | committed m confirm r app couts ha hst hs hc hq hn hr hcm =>
    have hend : endsRound cfg p m = true :=
      endsRound_of hs hc hq hn (by rw [hr]; simp only [hcm, CommitResult.isDone])
    refine LocksSound.endRound hf (hok hend).1 hp.view fun hmain l hl d hd => ?_
    have hne : l.digest ≠ some m.digest := (hok hend).2 hmain (by rw [hr]; rfl) l hl
    have hdm : d ≠ m.digest := by
      rintro rfl
      exact hne hd
    simp only [applied, Function.update_of_ne hdm]
    exact hp.pending l hl d hd
  | oldFailed m app =>
    obtain ⟨hask, -⟩ := hok
    exact LocksSound.unlockAskFor hf hask hp.view hp.pending
  | oldInstalled m app => exact hunlock m app rfl
  | oldPrepared m app => exact hunlock m app rfl
  | oldPanicked m app =>
    obtain ⟨-, hrep⟩ := hinstalled m app rfl
    refine ⟨hpanic.1, hpanic.2, ?_, ?_⟩
    · simpa using hp.view
    · simpa using hrep
  | viewEntered m hq =>
    refine ⟨hp.sequenceUnlock, hp.askForUnlock, fun l hl => ?_, hp.pending⟩
    have hl : l ∈ p.sequenceLock := hl
    rcases hok hq with hnone | hsame
    · rw [Option.isNone_iff_eq_none.mp hnone] at hl
      cases hl
    · exact (hp.view l hl).trans hsame.symm
  | _ => exact ⟨hp.sequenceUnlock, hp.askForUnlock, hp.view, hp.pending⟩

/-! ## Runs -/

/-- One step of a node by itself. -/
def lockStep (cfg : PbftConfig App R D In Out) (p : PbftNode App R D)
    (input : NodeInput R D In) : Option (PbftNode App R D) :=
  (p.nodeStep cfg input).map Prod.fst

/-- Sound locks, for any lawful module. -/
theorem locksSound_of_reaches (hlaw : LawfulModule cfg.ihm cfg.ohm number)
    (hdig : Function.Injective cfg.getDigest) {app : App}
    (hr : Reaches (lockStep cfg) (LocksKept cfg) (PbftNode.new cfg.ihm.height app) p) :
    LocksSound p := by
  have hinv : Filed cfg number p ∧ LocksSound p := by
    refine hr.invariant (fun p => Filed cfg number p ∧ LocksSound p) ⟨?_, ?_⟩ ?_
    · exact ⟨fun _ _ h => (by cases h), fun _ _ h => (by cases h)⟩
    · exact ⟨nofun, nofun, nofun, nofun⟩
    · rintro p input p' ⟨hfiled, hp⟩ hok h
      obtain ⟨⟨p'', outs⟩, hstep, rfl⟩ := Option.map_eq_some_iff.mp h
      obtain ⟨hf, htr⟩ := nodeStep_transition hstep
      exact ⟨hfiled.step hlaw hf htr, hp.step hlaw hdig hfiled hf hok htr⟩
  exact hinv.2

instance (cfg : PbftConfig App R D In Out) (p : PbftNode App R D) :
    ∀ input, Decidable (LocksKept cfg p input)
  | .receive (.commit _) | .askForRequests | .receive (.newView _) =>
    inferInstanceAs (Decidable (_ → _))
  | .receive (.sendOld _) => inferInstanceAs (Decidable (_ ∧ _))
  | .receive (.prePrepare _) | .receive (.prepare _) | .receive (.requestOld _)
  | .receive (.viewChange _) | .nextRound | .proposeCheck | .proposeLock
  | .proposeBroadcast _ | .proposeStage | .viewChangePropose | .outside _ => .isTrue trivial

/-- What reaches one of the four nodes. -/
abbrev FreeInput : Type := NodeInput FreeRequest FreeRequest OutsideMessage

/-- One of the four nodes, as it starts. -/
def fourNodesFresh : PbftNode (BlockChain FreeHash) FreeRequest FreeRequest :=
  PbftNode.new fourNodes.ihm.height (genesisChain fourNodesChain)

/-- The whole of `Propose`, at time 7. -/
def proposeInputs : List FreeInput :=
  [.nextRound, .proposeCheck, .proposeLock, .proposeBroadcast 7, .proposeStage]

/-- A proposal of the first block, prepared by nodes 0, 1 and 2, with the commit votes
of some nodes. -/
def firstBlockInputs (ks : List ℕ) : List FreeInput :=
  .receive (.prePrepare ⟨emptyRequest 0 7, emptyRequest 0 7, 1⟩) ::
    ([0, 1, 2].map fun k =>
      .receive (.prepare ⟨emptyRequest 0 7, 1, some (fourNodesNode k)⟩)) ++
    ks.map fun k => .receive (.commit ⟨emptyRequest 0 7, 1, some (fourNodesNode k)⟩)

/-- The announcements of view 1 by nodes 1, 2 and 3. -/
def newViewInputs (seqID : ℤ) : List FreeInput :=
  [1, 2, 3].map fun k => .receive (.newView ⟨0, 1, seqID, k⟩)

end BlockEmulator
