import BlockEmulator.RelayShard
import BlockEmulator.Requests

/-!
# Sequence numbers and chain height

A node's `sequenceID` should be one above its chain. Commitment moves both,
recovery sets the one from the other, and a new view sets `sequenceID` to the
number its announcement names, whatever the height of the chain is.

* `Transition.aligned` — every transition but two keeps the two numbers together;
  the two are the entry into a new view and the installation of old requests.
* `Straight` — in a shard without Byzantine nodes everything stored or sent for a
  sequence number is a request of that height, so installations keep them together
  as well.
* `aligned_iff_newViews` — **what is left is the new view**: along a run, all nodes
  are aligned in all states exactly when every new view that takes effect names
  the number after the height of the chain it takes effect at.
-/

namespace BlockEmulator

open StepSystem PbftNode

variable {App R D In Out : Type}

/-- The sequence number is the one after the height of the chain. -/
def Aligned (height : App → ℕ) (p : PbftNode App R D) : Prop :=
  p.fault = none → p.sequenceID = height p.curChain + 1

/-- A new view that takes effect names the number after the height. -/
def namesHeight (cfg : PbftConfig App R D In Out) (p : PbftNode App R D) :
    NodeInput R D In → Prop
  | .receive (.newView m) => p.completesView cfg m →
      (m.newSeqID % 2 ^ 64).toNat = cfg.ihm.height p.curChain + 1
  | _ => True

instance (cfg : PbftConfig App R D In Out) (p : PbftNode App R D) :
    ∀ input, Decidable (namesHeight cfg p input)
  | .receive (.newView _) => inferInstanceAs (Decidable (_ → _))
  | .receive (.prePrepare _) | .receive (.prepare _) | .receive (.commit _)
  | .receive (.requestOld _) | .receive (.sendOld _) | .receive (.viewChange _)
  | .nextRound | .proposeCheck | .proposeLock | .proposeBroadcast _ | .proposeStage
  | .viewChangePropose | .askForRequests | .outside _ => .isTrue trivial

namespace PbftNode

variable [DecidableEq D] {cfg : PbftConfig App R D In Out} {number : R → Option ℕ}
  {p p' : PbftNode App R D} {input : NodeInput R D In} {outs : List (Output R D Out)}

/-- **Every transition keeps a node aligned**, provided that a new view names the
right number, and that installed requests end where the message says. -/
theorem Transition.aligned (h : Transition cfg p input p' outs)
    (hlaw : LawfulModule cfg.ihm cfg.ohm number) (hp : Aligned cfg.ihm.height p)
    (hf : p.fault = none)
    (hv : namesHeight cfg p input)
    (hold : ∀ m app, input = .receive (.sendOld m) →
      cfg.ihm.handleforSequentialRequest p.curChain m = some (true, app) →
      m.seqEndHeight = cfg.ihm.height app) :
    Aligned cfg.ihm.height p' := by
  have hp := hp hf
  intro hf'
  cases h with
  | broadcast now r app hk hr =>
    show p.sequenceID = cfg.ihm.height app + 1
    rw [(hlaw.propose hr).2, hp]
  | asked m confirm => simpa [askForRequests, endRound_eq, countCommit] using hp
  | resumed seqID => simpa [askForRequests, endRound_eq] using hp
  | commitPanicked => cases hf'
  | committed m confirm r app outs ha hst hs hc hq hn hr hcm =>
    rw [endRound_eq]
    show p.sequenceID + 1 = cfg.ihm.height app + 1
    rw [(hlaw.commit hcm).2, hp]
  | oldFailed m app hres => simp [unlockAskFor_eq]
  | oldInstalled m app hres => simp [unlockAskFor_eq, hold m app rfl hres]
  | oldPrepared m app r hres => simp [unlockAskFor_eq, hold m app rfl hres]
  | oldPanicked => cases hf'
  | viewEntered m hq => exact hv hq
  | outside m app hres =>
    show p.sequenceID = cfg.ihm.height app + 1
    rw [hlaw.outside hres, hp]
  | _ => exact hp

/-- **A new view that takes effect moves the sequence number** to the one it names
and leaves the chain alone. -/
theorem Transition.aligned_newView {m : NewViewMsg}
    (h : Transition cfg p (.receive (.newView m)) p' outs) (hc : p.completesView cfg m)
    (hf : p.fault = none) (hp' : Aligned cfg.ihm.height p') :
    (m.newSeqID % 2 ^ 64).toNat = cfg.ihm.height p.curChain + 1 := by
  cases h with
  | idle m hm => cases hm
  | panicked input hm => cases hm _ rfl
  | moved input proposers h => rcases h with ⟨h, -⟩ | h <;> cases h
  | viewCounted m hq => exact absurd hc hq
  | viewEntered m hq => exact hp' hf

/-! ## What a node stores for a sequence number -/

theorem recordOld_height2Digest {n k : ℕ} {rs : List R} {d : D}
    (h : (recordOld cfg n rs p).height2Digest k = some d) :
    p.height2Digest k = some d ∨
      ∃ j r, rs[j]? = some r ∧ k = n + j ∧ cfg.getDigest r = d := by
  induction rs generalizing n p with
  | nil => exact .inl h
  | cons a rs ih =>
    rcases ih h with h | ⟨j, r, hj, hk, hd⟩
    · simp only [record, Function.update_apply] at h
      split at h
      · rename_i hn
        exact .inr ⟨0, a, rfl, hn, Option.some.inj h⟩
      · exact .inl h
    · exact .inr ⟨j + 1, r, hj, by omega, hd⟩

/-- What a node stores for a sequence number: a proposal it gets, its own, or a
request it installs. -/
theorem Transition.height2Digest (h : Transition cfg p input p' outs)
    (hlaw : LawfulModule cfg.ihm cfg.ohm number) {n : ℕ} {d : D} (hd : p'.height2Digest n = some d) :
    p.height2Digest n = some d ∨
      (∃ m, input = .receive (.prePrepare m) ∧ n = m.seqID ∧
        cfg.getDigest m.requestMsg = d) ∨
      (∃ r, n = p.sequenceID ∧ number r = some (cfg.ihm.height p.curChain + 1) ∧
        cfg.getDigest r = d) ∨
      ∃ m j r, input = .receive (.sendOld m) ∧ m.oldRequest[j]? = some r ∧
        n = m.seqStartHeight + j ∧ cfg.getDigest r = d := by
  have hrecord : ∀ k a, (p.record cfg k a).height2Digest n = some d →
      p.height2Digest n = some d ∨ n = k ∧ cfg.getDigest a = d := by
    intro k a hr
    simp only [record, Function.update_apply] at hr
    split at hr
    · rename_i hk
      exact .inr ⟨hk, Option.some.inj hr⟩
    · exact .inl hr
  have hinstalled : ∀ m app, input = .receive (.sendOld m) →
      (p.installed cfg m app).height2Digest n = some d →
      p.height2Digest n = some d ∨ ∃ m j r, input = .receive (.sendOld m) ∧
        m.oldRequest[j]? = some r ∧ n = m.seqStartHeight + j ∧ cfg.getDigest r = d := by
    intro m app hin hr
    rcases recordOld_height2Digest (p := { p with curChain := app }) hr with
      hr | ⟨j, r, hj, hn, hdig⟩
    · exact .inl hr
    · exact .inr ⟨m, j, r, hin, hj, hn, hdig⟩
  cases h with
  | broadcast now r app hk hr =>
    rcases hrecord _ r hd with hd | ⟨hn, hdig⟩
    · exact .inl hd
    · exact .inr (.inr (.inl ⟨r, hn, (hlaw.propose hr).1, hdig⟩))
  | stored m ha hs hdig =>
    rcases hrecord _ _ hd with hd | ⟨hn, hdig⟩
    · exact .inl hd
    · exact .inr (.inl ⟨m, rfl, hn, hdig⟩)
  | prepared m ha hs hdig =>
    rcases hrecord _ _ hd with hd | ⟨hn, hdig⟩
    · exact .inl hd
    · exact .inr (.inl ⟨m, rfl, hn, hdig⟩)
  | asked m confirm =>
    refine .inl ?_
    simpa [askForRequests, endRound_eq, countCommit] using hd
  | resumed seqID =>
    refine .inl ?_
    simpa [askForRequests, endRound_eq] using hd
  | committed m confirm a app =>
    refine .inl ?_
    simpa [endRound_eq, applied] using hd
  | oldFailed m app =>
    rw [unlockAskFor_eq] at hd
    exact .inl hd
  | oldInstalled m app =>
    rw [unlockAskFor_eq] at hd
    exact (hinstalled m app rfl hd).imp_right (.inr ∘ .inr)
  | oldPrepared m app a =>
    rw [unlockAskFor_eq] at hd
    exact (hinstalled m app rfl hd).imp_right (.inr ∘ .inr)
  | oldPanicked m app => exact (hinstalled m app rfl hd).imp_right (.inr ∘ .inr)
  | _ => exact .inl hd

end PbftNode

/-! ## The shard -/

variable [DecidableEq R] [DecidableEq D] {cfg : PbftConfig App R D In Out}
  {number : R → Option ℕ} {s t : ShardState App R D Out} {a : ShardAction R D In}

/-- All nodes are aligned. -/
def AllAligned (cfg : PbftConfig App R D In Out) (s : ShardState App R D Out) : Prop :=
  ∀ i, Aligned cfg.ihm.height (s.nodes i)

/-- The condition on a step of a shard: a new view that takes effect names the
number after the height of the chain. -/
def NewViewsAgree (cfg : PbftConfig App R D In Out) (s : ShardState App R D Out) :
    ShardAction R D In → Prop
  | .node i input => namesHeight cfg (s.nodes i) input
  | .forge _ _ => True

instance (s : ShardState App R D Out) : ∀ a : ShardAction R D In, Decidable (NewViewsAgree cfg s a)
  | .node i input => inferInstanceAs (Decidable (namesHeight cfg (s.nodes i) input))
  | .forge _ _ => .isTrue trivial

/-- In a shard without Byzantine nodes everything is stored and sent under the
height it is for. -/
structure Straight (cfg : PbftConfig App R D In Out) (number : R → Option ℕ)
    (s : ShardState App R D Out) : Prop where
  /-- requests are stored under their digests -/
  pool : ∀ i d r, (s.nodes i).requestPool d = some r → cfg.getDigest r = d
  /-- the request stored for a number is of that height -/
  digests : ∀ i n d, (s.nodes i).height2Digest n = some d →
    ∃ r, cfg.getDigest r = d ∧ number r = some n
  /-- a proposal is for the height of its request -/
  proposals : ∀ k dest m, (k, .send dest (.prePrepare m)) ∈ s.history →
    number m.requestMsg = some m.seqID
  /-- answers hold requests of the heights they say -/
  answers : ∀ k dest m, (k, .send dest (.sendOld m)) ∈ s.history →
    ∀ j r, m.oldRequest[j]? = some r → number r = some (m.seqStartHeight + j)

namespace Straight

omit [DecidableEq R] [DecidableEq D] in
theorem new (apps : ℕ → App) :
    Straight cfg number (ShardState.new cfg.ihm.height apps : ShardState App R D Out) where
  pool i d r h := by cases h
  digests i n d h := by cases h
  proposals k dest m h := by cases h
  answers k dest m h := by cases h

omit [DecidableEq R] [DecidableEq D] in
/-- Installed requests end where the answer says. -/
theorem seqEndHeight_eq (hlaw : LawfulModule cfg.ihm cfg.ohm number)
    (hs : Straight cfg number s) {app app' : App} {m : SendOldMessage R} {k : ℕ} {dest : Dest}
    (hsent : (k, .send dest (.sendOld m)) ∈ s.history)
    (h : cfg.ihm.handleforSequentialRequest app m = some (true, app')) :
    m.seqEndHeight = cfg.ihm.height app' := by
  obtain ⟨hle, hlen, hheight, hall⟩ := hlaw.sequential h
  have hpos : 0 < m.oldRequest.length := by omega
  -- the first request fixes the start: the chain says its height, and so does the answer
  have hfirst := List.getElem?_eq_getElem hpos
  have hstart : m.seqStartHeight + 0 = cfg.ihm.height app + 0 + 1 :=
    Option.some.inj ((hs.answers k dest m hsent 0 _ hfirst).symm.trans (hall 0 _ hfirst))
  omega

/-- **Every step of a shard without Byzantine nodes keeps it straight**, as long as
its nodes are aligned. -/
theorem step (hlaw : LawfulModule cfg.ihm cfg.ohm number)
    (hdig : Function.Injective cfg.getDigest) (hs : Straight cfg number s)
    (hal : AllAligned cfg s) (h : s.step cfg ∅ a = some t) : Straight cfg number t := by
  rcases a with ⟨i, input⟩ | ⟨b, m⟩
  · obtain ⟨-, -, harr, hf, p, outs, htr, rfl⟩ := ShardState.step_node h
    have hal := hal i hf
    refine ⟨fun j d r hr => ?_, fun j n d hd => ?_, fun k dest m hm => ?_,
      fun k dest m hm j r hj => ?_⟩
    · dsimp only at hr
      rw [Function.update_apply] at hr
      split at hr
      · rcases htr.requestPool hr with hr | ⟨hr, -⟩
        · exact hs.pool i d r hr
        · exact hr
      · exact hs.pool j d r hr
    · dsimp only at hd
      rw [Function.update_apply] at hd
      split at hd
      · rcases htr.height2Digest hlaw hd with hold | ⟨m, rfl, rfl, hdr⟩ | ⟨r, rfl, hr, hdr⟩ |
          ⟨m, j, r, rfl, hj, rfl, hdr⟩
        · exact hs.digests i n d hold
        · -- a proposal the node got
          obtain ⟨k, dest, hsent⟩ := ShardState.arrives_receive harr
          exact ⟨_, hdr, hs.proposals k dest m hsent⟩
        · -- its own proposal
          exact ⟨r, hdr, hr.trans (congrArg some hal.symm)⟩
        · -- a request it installs
          obtain ⟨k, dest, hsent⟩ := ShardState.arrives_receive harr
          exact ⟨r, hdr, hs.answers k dest m hsent j r hj⟩
      · exact hs.digests j n d hd
    · rcases ShardState.mem_history_node hm with hm | ⟨-, hm⟩
      · exact hs.proposals k dest m hm
      · obtain ⟨hseq, now, app, hr⟩ := htr.prePrepare_sent hm
        rw [hseq, hal]
        exact (hlaw.propose hr).1
    · rcases ShardState.mem_history_node hm with hm | ⟨-, hm⟩
      · exact hs.answers k dest m hm j r hj
      · obtain ⟨d, hd, hr⟩ := htr.sendOld_sent hm hj
        obtain ⟨r', hr', hnum⟩ := hs.digests i _ d hd
        obtain rfl : r' = r := hdig (hr'.trans (hs.pool i d r hr).symm)
        exact hnum
  · obtain ⟨hb, -, -⟩ := ShardState.step_forge h
    exact absurd hb (Finset.notMem_empty b)

/-- A step keeps all nodes aligned exactly when it meets the condition on new
views. -/
theorem allAligned_step (hlaw : LawfulModule cfg.ihm cfg.ohm number)
    (hs : Straight cfg number s) (hal : AllAligned cfg s) (h : s.step cfg ∅ a = some t) :
    AllAligned cfg t ↔ NewViewsAgree cfg s a := by
  rcases a with ⟨i, input⟩ | ⟨b, m⟩
  · obtain ⟨-, -, harr, hf, p, outs, htr, rfl⟩ := ShardState.step_node h
    constructor
    · intro hall
      have hp : Aligned cfg.ihm.height p := by
        have := hall i
        dsimp only at this
        rwa [Function.update_self] at this
      cases input with
      | receive m =>
        cases m with
        -- nothing but a new view has a condition to meet
        | newView m => exact fun hc => htr.aligned_newView hc hf hp
        | _ => trivial
      | _ => trivial
    · intro hv j
      dsimp only
      rw [Function.update_apply]
      split
      · refine htr.aligned hlaw (hal i) hf ?_ ?_
        · exact hv
        · rintro m app rfl hres
          obtain ⟨k, dest, hsent⟩ := ShardState.arrives_receive harr
          exact hs.seqEndHeight_eq hlaw hsent hres
      · exact hal j
  · obtain ⟨hb, -, -⟩ := ShardState.step_forge h
    exact absurd hb (Finset.notMem_empty b)

end Straight

omit [DecidableEq R] [DecidableEq D] in
theorem allAligned_new (apps : ℕ → App) :
    AllAligned cfg (ShardState.new cfg.ihm.height apps : ShardState App R D Out) :=
  fun _ _ => rfl

/-- **Drift is the new view's doing**: along a run of a shard without Byzantine
nodes, all nodes are aligned in all states exactly when every new view that takes
effect names the number after the height of the chain it takes effect at. -/
theorem aligned_iff_newViews (hlaw : LawfulModule cfg.ihm cfg.ohm number)
    (hdig : Function.Injective cfg.getDigest) (apps : ℕ → App)
    (as : List (ShardAction R D In)) :
    AllStates (ShardState.step cfg ∅) (AllAligned cfg) (ShardState.new cfg.ihm.height apps) as ↔
      AllSteps (ShardState.step cfg ∅) (NewViewsAgree cfg)
        (ShardState.new cfg.ihm.height apps) as :=
  allStates_iff_allSteps (Straight cfg number)
    (fun _ _ _ hs hal _ h => hs.step hlaw hdig hal h)
    (fun _ _ _ hs hal h => hs.allAligned_step hlaw hal h) as _ (Straight.new apps)
    (allAligned_new apps)

/-! ## In a relay shard -/

/-- Node 0 commits its first block while the others change the view at the number
it is for; then their announcements reach it. -/
def driftRun : List FreeAction :=
  propose 0 7 ++ deliverPrePrepare [0, 1, 2] (emptyRequest 0 7) 1 ++
    deliverPrepare [0, 1, 2] [0, 1, 2] (emptyRequest 0 7) 1 ++
    deliverCommit [0] [0, 1, 2] (emptyRequest 0 7) 1 ++
    timeOut [1, 2, 3] 1 ++ deliverNewView [0] [1, 2, 3] 1

end BlockEmulator
