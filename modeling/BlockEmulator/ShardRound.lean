import BlockEmulator.PbftRound
import BlockEmulator.RelayShard
import Mathlib.Data.Finset.Prod

/-!
# A round of consensus in a shard

One node proposes a request, and messages are delivered. Some nodes may not run at all; each
message reaches each of the others at most once, in any order in which the handlers let it
in.

* `RoundInv` — a shard in a round; `RoundInv.step` says that every delivery keeps it.
* `RoundInv.decided` — **where nothing more can be delivered, every node that runs has committed**.
* `round_decides` — the whole round.
-/

namespace BlockEmulator

open StepSystem PbftNode

variable {App R D In Out : Type}

/-! ## Deliveries -/

section

variable [DecidableEq R] [DecidableEq D] (cfg : PbftConfig App R D In Out)

/-- A shard, with the messages that have been handled and by whom. -/
abbrev RoundState (App R D Out : Type) : Type :=
  ShardState App R D Out × List (ℕ × Message R D)

/-- A message reaches a node that runs and has not handled it, and is let in. -/
def deliverOnce (alive : Finset ℕ) (σ : RoundState App R D Out) (e : ℕ × Message R D) :
    Option (RoundState App R D Out) :=
  if e.1 ∉ alive ∨ e ∈ σ.2 then none
  else (σ.1.step cfg ∅ (.node e.1 (.receive e.2))).map (·, e :: σ.2)

/-- What a node sends out of the shard. -/
def Output.toRelayed : Output R D Out → Option Out
  | .relay o => some o
  | _ => none

/-- What was sent out of the shard, the latest first. -/
def relayedOut (history : List (ℕ × Output R D Out)) : List Out :=
  history.filterMap fun e => e.2.toRelayed

variable (rd : RoundPlan App R Out)

/-- Whether a message of the round was sent to all. -/
def SentAll (s : ShardState App R D Out) (m : RoundMsg) : Prop :=
  ∃ k, (k, .send .all (m.toMessage cfg rd)) ∈ s.history

/-- A quorum of nodes has sent messages of a kind. -/
def QuorumSent (s : ShardState App R D Out) (m : ℕ → RoundMsg) : Prop :=
  ∃ S : Finset ℕ, cfg.quorum ≤ S.card ∧ ∀ k ∈ S, SentAll cfg rd s (m k)

/-- A node in a round. -/
def NodeInv (σ : RoundState App R D Out) (i : ℕ) : Prop :=
  Deciding cfg rd (σ.1.nodes i) i (fun m => (i, m.toMessage cfg rd) ∈ σ.2) ∧
      ((i, RoundMsg.proposal.toMessage cfg rd) ∈ σ.2 → SentAll cfg rd σ.1 (.prepare i)) ∧
      ((σ.1.nodes i).isCommitBordcast (rd.digest cfg) = true → SentAll cfg rd σ.1 (.commit i)) ∨
    DecidedRound rd (σ.1.nodes i) i ∧ QuorumSent cfg rd σ.1 .commit

/-- A shard in a round. When it started, nobody had voted on the digests of a set, and
something had been sent out of the shard. -/
structure RoundInv (unused : Set D) (base : List Out) (σ : RoundState App R D Out) : Prop where
  /-- its nodes -/
  node : ∀ i ∈ rd.alive, NodeInv cfg rd σ i
  /-- the request was proposed -/
  proposal : SentAll cfg rd σ.1 .proposal
  /-- a Commit is sent over a quorum of Prepares -/
  backed : ∀ k, SentAll cfg rd σ.1 (.commit k) → QuorumSent cfg rd σ.1 .prepare
  /-- votes are of members -/
  member : ∀ k, SentAll cfg rd σ.1 (.prepare k) ∨ SentAll cfg rd σ.1 (.commit k) →
    k ∈ rd.alive
  /-- the messages of this round are the ones that were sent in it -/
  history : ∀ k d m, (k, .send d m) ∈ σ.1.history →
    m.Before rd.seqID ∨ d = .all ∧ ∃ m' : RoundMsg, m = m'.toMessage cfg rd
  /-- what was handled was sent -/
  handled : ∀ e ∈ σ.2, e.2.Before rd.seqID ∨
    ∃ m' : RoundMsg, e.2 = m'.toMessage cfg rd ∧ SentAll cfg rd σ.1 m'
  /-- there are no votes on other digests -/
  unused : ∀ i ∈ rd.alive, ∀ d ∈ unused, d ≠ rd.digest cfg → Unvoted (σ.1.nodes i) d
  /-- the leader sends something out of the shard when it commits the request -/
  relayed : (σ.1.nodes rd.leader).sequenceID = rd.seqID ∧ relayedOut σ.1.history = base ∨
    (σ.1.nodes rd.leader).sequenceID = rd.seqID + 1 ∧
      relayedOut σ.1.history = rd.relays rd.leader ++ base

end

section

variable [DecidableEq R] [DecidableEq D] {cfg : PbftConfig App R D In Out}
  {rd : RoundPlan App R Out} {unused : Set D} {base : List Out}
  {σ τ : RoundState App R D Out} {alive : Finset ℕ} {e : ℕ × Message R D}

omit [DecidableEq R] [DecidableEq D] in
theorem SentAll.mono {s t : ShardState App R D Out} (h : s.history ⊆ t.history) {m : RoundMsg}
    (hs : SentAll cfg rd s m) : SentAll cfg rd t m := by
  obtain ⟨k, hk⟩ := hs
  exact ⟨k, h hk⟩

omit [DecidableEq R] [DecidableEq D] in
theorem QuorumSent.mono {s t : ShardState App R D Out} (h : s.history ⊆ t.history)
    {m : ℕ → RoundMsg} (hs : QuorumSent cfg rd s m) : QuorumSent cfg rd t m := by
  obtain ⟨S, hS, hall⟩ := hs
  exact ⟨S, hS, fun k hk => (hall k hk).mono h⟩

omit [DecidableEq R] [DecidableEq D] in
/-- The messages of a round tell who sent them. -/
theorem RoundMsg.toMessage_inj {a b : RoundMsg}
    (h : (a.toMessage cfg rd : Message R D) = b.toMessage cfg rd) : a = b := by
  cases a <;> cases b <;> simp only [toMessage, Message.prepare.injEq, Message.commit.injEq,
    Prepare.mk.injEq, Commit.mk.injEq, reduceCtorEq] at h
  · rfl
  all_goals
    obtain ⟨-, -, h⟩ := h
    exact congrArg _ (congrArg Node.nodeID (Option.some.inj h))

/-- What was sent to all can reach every node. -/
theorem SentAll.arrives {s : ShardState App R D Out} {m : RoundMsg} (h : SentAll cfg rd s m)
    (ip : String) : s.arrives ip (.receive (m.toMessage cfg rd) : NodeInput R D In) = true := by
  obtain ⟨k, hk⟩ := h
  exact List.any_eq_true.mpr ⟨_, hk, by simp [Output.delivers, Dest.reaches]⟩

/-- The shard when a node has handled a message. -/
def afterDelivery (σ : RoundState App R D Out) (i : ℕ) (m : Message R D) (p : PbftNode App R D)
    (outs : List (Output R D Out)) : RoundState App R D Out :=
  (⟨Function.update σ.1.nodes i p, outs.map (i, ·) ++ σ.1.history⟩, (i, m) :: σ.2)

/-- A delivery: one node handles one message for the first time. -/
theorem deliverOnce_some {i : ℕ} {m : Message R D} (h : deliverOnce cfg alive σ (i, m) = some τ) :
    (i, m) ∉ σ.2 ∧ i ∈ alive ∧
      σ.1.arrives (cfg.ipOf i) (.receive m : NodeInput R D In) = true ∧
      ∃ p outs, (σ.1.nodes i).handleMessage (cfg.at i) m = some (p, outs) ∧
        τ = afterDelivery σ i m p outs := by
  rw [deliverOnce] at h
  split at h
  · cases h
  · rename_i hno
    obtain ⟨halive, hnew⟩ := not_or.mp hno
    obtain ⟨s, hs, rfl⟩ := Option.map_eq_some_iff.mp h
    rw [ShardState.step] at hs
    split at hs
    · rename_i hg
      obtain ⟨⟨p, outs⟩, hr, rfl⟩ := Option.map_eq_some_iff.mp hs
      rw [PbftNode.nodeStep] at hr
      split at hr
      · cases hr
      · exact ⟨hnew, not_not.mp halive, hg.2.2, p, outs, hr, rfl⟩
    · cases hs

/-- What was handled in a round was sent in it. -/
theorem RoundInv.sent_of_handled (h : RoundInv cfg rd unused base σ) {i : ℕ} {m : RoundMsg}
    (hm : (i, m.toMessage cfg rd) ∈ σ.2) : SentAll cfg rd σ.1 m := by
  rcases h.handled _ hm with hbefore | ⟨m', heq, hsent⟩
  · exact absurd hbefore m.not_before
  · exact RoundMsg.toMessage_inj heq ▸ hsent

end

section

variable [DecidableEq R] [DecidableEq D] {cfg : PbftConfig App R D In Out}
  {rd : RoundPlan App R Out} {σ τ : RoundState App R D Out} {i k : ℕ} {m : RoundMsg}
  {p : PbftNode App R D} {outs : List (Output R D Out)}

/-- What a node sends when it handles a message, and what it becomes. -/
structure Emits (cfg : PbftConfig App R D In Out) (rd : RoundPlan App R Out)
    (s : ShardState App R D Out) (i : ℕ) (p : PbftNode App R D) (outs : List (Output R D Out)) :
    Prop where
  /-- it sends its votes, the Commit over a quorum of Prepares -/
  sends : ∀ d m, .send d m ∈ outs → d = .all ∧
    (m = RoundMsg.toMessage cfg rd (.prepare i) ∨
      m = RoundMsg.toMessage cfg rd (.commit i) ∧ QuorumSent cfg rd s .prepare)
  /-- it sends something out of the shard when it commits the request -/
  relays : p.sequenceID = (s.nodes i).sequenceID ∧ outs.filterMap Output.toRelayed = [] ∨
    (s.nodes i).sequenceID = rd.seqID ∧ p.sequenceID = rd.seqID + 1 ∧
      outs.filterMap Output.toRelayed = rd.relays i
  /-- only the leader does so -/
  silent : rd.leader ≠ i → outs.filterMap Output.toRelayed = []

omit [DecidableEq R] [DecidableEq D] in
theorem Emits.nothing (h : p.sequenceID = (σ.1.nodes i).sequenceID) :
    Emits cfg rd σ.1 i p [] where
  sends _ _ hmem := absurd hmem List.not_mem_nil
  relays := .inl ⟨h, rfl⟩
  silent _ := rfl

/-- A message of the round comes to a node that has not handled it. -/
structure Arriving (cfg : PbftConfig App R D In Out) (rd : RoundPlan App R Out)
    (σ : RoundState App R D Out) (i : ℕ) (m : RoundMsg) : Prop where
  /-- the node runs -/
  node : i ∈ rd.alive
  /-- it has not handled the message -/
  fresh : (i, m.toMessage cfg rd) ∉ σ.2
  /-- the message was sent -/
  sent : SentAll cfg rd σ.1 m
  /-- so were all that were handled -/
  handled : ∀ m' : RoundMsg, (i, m'.toMessage cfg rd) ∈ σ.2 → SentAll cfg rd σ.1 m'
  /-- votes are of members -/
  voter : ∀ k, m = .prepare k ∨ m = .commit k → k ∈ rd.alive

/-- What one message has done in the shard. -/
abbrev Received (cfg : PbftConfig App R D In Out) (rd : RoundPlan App R Out)
    (σ : RoundState App R D Out) (i : ℕ) (m : RoundMsg) (p : PbftNode App R D)
    (outs : List (Output R D Out)) : Prop :=
  NodeInv cfg rd (afterDelivery σ i (m.toMessage cfg rd) p outs) i ∧ Emits cfg rd σ.1 i p outs

/-- A node that is not concerned stays as it was. -/
theorem NodeInv.frame (h : NodeInv cfg rd σ i) (hnode : τ.1.nodes i = σ.1.nodes i)
    (hgot : ∀ m : RoundMsg, (i, m.toMessage cfg rd) ∈ τ.2 ↔ (i, m.toMessage cfg rd) ∈ σ.2)
    (hhist : σ.1.history ⊆ τ.1.history) :
    NodeInv cfg rd τ i := by
  have hfun : (fun m : RoundMsg => decide ((i, m.toMessage cfg rd) ∈ τ.2)) =
      fun m => decide ((i, m.toMessage cfg rd) ∈ σ.2) :=
    funext fun m => by rw [decide_eq_decide, hgot]
  rw [NodeInv, hnode, hfun]
  rcases h with ⟨hd, hp, hc⟩ | ⟨hd, hq⟩
  · exact .inl ⟨hd, fun h => (hp ((hgot _).mp h)).mono hhist, fun h => (hc h).mono hhist⟩
  · exact .inr ⟨hd, hq.mono hhist⟩

omit [DecidableEq R] [DecidableEq D] in
@[simp] theorem afterDelivery_node {m : Message R D} :
    (afterDelivery σ i m p outs).1.nodes i = p := Function.update_self ..

omit [DecidableEq R] [DecidableEq D] in
theorem history_afterDelivery (σ : RoundState App R D Out) (i : ℕ) (m : Message R D)
    (p : PbftNode App R D) (outs : List (Output R D Out)) :
    σ.1.history ⊆ (afterDelivery σ i m p outs).1.history :=
  List.subset_append_right _ _

/-- A node that goes on deciding has handled one message more. -/
theorem NodeInv.deciding
    (hd : Deciding cfg rd p i
      (Function.update (fun m' => decide ((i, m'.toMessage cfg rd) ∈ σ.2)) m true))
    (hprep : m = .proposal ∨ (i, RoundMsg.proposal.toMessage cfg rd) ∈ σ.2 →
      SentAll cfg rd (afterDelivery σ i (m.toMessage cfg rd) p outs).1 (.prepare i))
    (hcom : p.isCommitBordcast (rd.digest cfg) = true →
      SentAll cfg rd (afterDelivery σ i (m.toMessage cfg rd) p outs).1 (.commit i)) :
    NodeInv cfg rd (afterDelivery σ i (m.toMessage cfg rd) p outs) i := by
  have hmem : ∀ m' : RoundMsg, (i, m'.toMessage cfg rd) ∈ (i, m.toMessage cfg rd) :: σ.2 ↔
      m' = m ∨ (i, m'.toMessage cfg rd) ∈ σ.2 := by
    intro m'
    rw [List.mem_cons, Prod.mk.injEq, and_iff_right rfl]
    exact or_congr_left ⟨RoundMsg.toMessage_inj, congrArg _⟩
  have hgot : (fun m' : RoundMsg =>
      decide ((i, m'.toMessage cfg rd) ∈ (i, m.toMessage cfg rd) :: σ.2)) =
      Function.update (fun m' => decide ((i, m'.toMessage cfg rd) ∈ σ.2)) m true := by
    funext m'
    by_cases hm' : m' = m
    · simp [hm']
    · rw [Function.update_of_ne hm', decide_eq_decide, hmem, or_iff_right hm']
  refine .inl ⟨?_, fun h => hprep (((hmem _).mp h).imp_left Eq.symm), fun hbc =>
    hcom (by simpa using hbc)⟩
  rw [afterDelivery_node]
  exact hgot ▸ hd

variable (hl : rd.Lawful cfg)
  (hd : Deciding cfg rd (σ.1.nodes i) i fun m => decide ((i, m.toMessage cfg rd) ∈ σ.2))
  (hprep : (i, RoundMsg.proposal.toMessage cfg rd) ∈ σ.2 → SentAll cfg rd σ.1 (.prepare i))
  (hcom : (σ.1.nodes i).isCommitBordcast (rd.digest cfg) = true → SentAll cfg rd σ.1 (.commit i))

omit hl in
include hd hcom in
theorem Arriving.proposal (h : Arriving cfg rd σ i .proposal)
    (hm : (σ.1.nodes i).handleMessage (cfg.at i)
      (RoundMsg.proposal.toMessage cfg rd : Message R D) = some (p, outs)) :
    Received cfg rd σ i .proposal p outs := by
  obtain ⟨q, hq, hd', hb⟩ := hd.proposal (by simpa using h.fresh)
  obtain ⟨rfl, rfl⟩ := Prod.mk.inj (Option.some.inj (hq.symm.trans hm))
  refine ⟨.deciding hd' (fun _ => ⟨i, List.mem_cons_self⟩) fun hbc =>
    (hcom (hb ▸ hbc)).mono (history_afterDelivery ..), ?_, ?_, fun _ => rfl⟩
  · intro d m hmem
    obtain ⟨rfl, rfl⟩ := Output.send.inj (List.mem_singleton.mp hmem)
    exact ⟨rfl, .inl rfl⟩
  · exact .inl ⟨hd'.sequenceID.trans hd.sequenceID.symm, rfl⟩

include hl hd hprep hcom in
theorem Arriving.prepare (h : Arriving cfg rd σ i (.prepare k))
    (hm : (σ.1.nodes i).handleMessage (cfg.at i)
      (RoundMsg.toMessage cfg rd (.prepare k) : Message R D) = some (p, outs)) :
    Received cfg rd σ i (.prepare k) p outs := by
  obtain ⟨q, outs', hq, hd', hout⟩ := hd.prepare hl (h.voter k (.inl rfl)) (hd.stage_le hm)
  obtain ⟨rfl, rfl⟩ := Prod.mk.inj (Option.some.inj (hq.symm.trans hm))
  have hprep' : RoundMsg.prepare k = .proposal ∨ (i, RoundMsg.proposal.toMessage cfg rd) ∈ σ.2 →
      SentAll cfg rd (afterDelivery σ i (RoundMsg.toMessage cfg rd (.prepare k)) q outs').1
        (.prepare i) :=
    fun hmem => (hprep (hmem.resolve_left nofun)).mono (history_afterDelivery ..)
  rcases hout with ⟨rfl, hb⟩ | ⟨rfl, hquorum⟩
  · exact ⟨.deciding hd' hprep' fun hbc => (hcom (hb ▸ hbc)).mono (history_afterDelivery ..),
      .nothing (hd'.sequenceID.trans hd.sequenceID.symm)⟩
  · refine ⟨.deciding hd' hprep' fun _ => ⟨i, List.mem_cons_self⟩, ?_, ?_, fun _ => rfl⟩
    · intro d m hmem
      obtain ⟨rfl, rfl⟩ := Output.send.inj (List.mem_singleton.mp hmem)
      refine ⟨rfl, .inr ⟨rfl, _, hquorum, fun j hj => ?_⟩⟩
      have hgot := (hd'.prepares j).mp hj
      by_cases hjk : j = k
      · exact hjk ▸ h.sent
      · exact h.handled (.prepare j) (by simpa [Function.update_apply, hjk] using hgot)
    · exact .inl ⟨hd'.sequenceID.trans hd.sequenceID.symm, rfl⟩

include hl hd hprep hcom in
theorem Arriving.commit (h : Arriving cfg rd σ i (.commit k))
    (hm : (σ.1.nodes i).handleMessage (cfg.at i)
      (RoundMsg.toMessage cfg rd (.commit k) : Message R D) = some (p, outs)) :
    Received cfg rd σ i (.commit k) p outs := by
  have hst : 3 ≤ (σ.1.nodes i).pbftStage := hd.stage_le hm
  obtain ⟨q, outs', hq, hout⟩ := hd.commit hl (h.voter k (.inr rfl)) hst
  obtain ⟨rfl, rfl⟩ := Prod.mk.inj (Option.some.inj (hq.symm.trans hm))
  have hhist := history_afterDelivery σ i (RoundMsg.toMessage cfg rd (.commit k)) q outs'
  rcases hout with ⟨hd', rfl, hb⟩ | ⟨hd', rfl, hquorum⟩
  · exact ⟨.deciding hd' (fun hmem => (hprep (hmem.resolve_left nofun)).mono hhist) fun hbc =>
      (hcom (hb ▸ hbc)).mono hhist, .nothing (hd'.sequenceID.trans hd.sequenceID.symm)⟩
  · have houts : (Output.committed rd.seqID (rd.digest cfg) ::
        (rd.relays i).map (Output.relay : Out → Output R D Out)).filterMap Output.toRelayed =
          rd.relays i := by
      rw [List.filterMap_cons, List.filterMap_map]
      exact List.filterMap_some
    refine ⟨.inr ⟨?_, _, hquorum, fun j hj => ?_⟩, ?_, ?_, fun hlead => ?_⟩
    · exact afterDelivery_node.symm ▸ hd'
    · refine SentAll.mono hhist ?_
      rcases Finset.mem_insert.mp hj with rfl | hj
      · exact h.sent
      · exact h.handled (.commit j) (by simpa using (hd.commits j).mp hj)
    · intro d m hmem
      simp at hmem
    · exact .inr ⟨hd.sequenceID, hd'.sequenceID, houts⟩
    · exact houts.trans (hd.agrees.silent hlead)

include hl in
/-- **What one message does in the shard.** -/
theorem Arriving.received (h : Arriving cfg rd σ i m) (hnode : NodeInv cfg rd σ i)
    (hm : (σ.1.nodes i).handleMessage (cfg.at i) (m.toMessage cfg rd : Message R D) =
      some (p, outs)) : Received cfg rd σ i m p outs := by
  rcases hnode with ⟨hd, hprep, hcom⟩ | ⟨hd, hq⟩
  · cases m with
    | proposal => exact h.proposal hd hcom hm
    | prepare k => exact h.prepare hl hd hprep hcom hm
    | commit k => exact h.commit hl hd hprep hcom hm
  · obtain ⟨rfl, rfl⟩ := Prod.mk.inj (Option.some.inj ((hd.late m).symm.trans hm))
    exact ⟨.inr ⟨afterDelivery_node.symm ▸ hd, hq⟩, .nothing rfl⟩

omit [DecidableEq R] [DecidableEq D] in
/-- What is sent after a delivery was sent before it, or is a vote of the node. -/
theorem SentAll.of_delivery {msg : Message R D} (he : Emits cfg rd σ.1 i p outs) {m' : RoundMsg}
    (hs : SentAll cfg rd (afterDelivery σ i msg p outs).1 m') :
    SentAll cfg rd σ.1 m' ∨ m' = .prepare i ∨ m' = .commit i ∧ QuorumSent cfg rd σ.1 .prepare := by
  obtain ⟨k, hk⟩ := hs
  rcases List.mem_append.mp hk with hnew | hold
  · obtain ⟨o, ho, heq⟩ := List.mem_map.mp hnew
    obtain ⟨-, rfl⟩ := Prod.mk.inj heq
    rcases (he.sends _ _ ho).2 with hmsg | ⟨hmsg, hq⟩
    · exact .inr (.inl (RoundMsg.toMessage_inj hmsg))
    · exact .inr (.inr ⟨RoundMsg.toMessage_inj hmsg, hq⟩)
  · exact .inl ⟨k, hold⟩

end

section

variable [DecidableEq R] [DecidableEq D] {cfg : PbftConfig App R D In Out}
  {rd : RoundPlan App R Out} {unused : Set D} {base : List Out}
  {σ τ : RoundState App R D Out} {e : ℕ × Message R D}

/-- A node in a round has no blocked handler, and is not behind. -/
theorem NodeInv.asking {i : ℕ} (h : NodeInv cfg rd σ i) :
    (σ.1.nodes i).asking = none ∧ rd.seqID ≤ (σ.1.nodes i).sequenceID := by
  rcases h with ⟨hd, -, -⟩ | ⟨hd, -⟩
  · exact ⟨hd.asking, hd.sequenceID.ge⟩
  · exact ⟨hd.asking, hd.sequenceID ▸ Nat.le_succ _⟩

omit [DecidableEq R] [DecidableEq D] in
/-- A message that changes nothing. -/
theorem afterDelivery_unchanged (σ : RoundState App R D Out) (i : ℕ) (m : Message R D) :
    afterDelivery σ i m (σ.1.nodes i) [] = (σ.1, (i, m) :: σ.2) := by
  rw [afterDelivery, Function.update_eq_self]
  rfl

/-- **A delivery in a round**: a message of an earlier round is turned away, or one of this
round is handled. -/
theorem RoundInv.deliver_cases (h : RoundInv cfg rd unused base σ) (hl : rd.Lawful cfg)
    (hd : deliverOnce cfg rd.alive σ e = some τ) :
    e ∉ σ.2 ∧ e.1 ∈ rd.alive ∧ (∃ k d, (k, .send d e.2) ∈ σ.1.history) ∧
      (e.2.Before rd.seqID ∧ τ = (σ.1, e :: σ.2) ∨
        ∃ (m : RoundMsg) (p : PbftNode App R D) (outs : List (Output R D Out)),
          e.2 = m.toMessage cfg rd ∧ τ = afterDelivery σ e.1 e.2 p outs ∧ SentAll cfg rd σ.1 m ∧
            (σ.1.nodes e.1).handleMessage (cfg.at e.1) e.2 = some (p, outs) ∧
            Received cfg rd σ e.1 m p outs) := by
  obtain ⟨i, msg⟩ := e
  obtain ⟨hnew, hi, harr, p, outs, hm, rfl⟩ := deliverOnce_some hd
  obtain ⟨k, d, hk⟩ := ShardState.arrives_receive harr
  refine ⟨hnew, hi, ⟨k, d, hk⟩, ?_⟩
  rcases h.history k d msg hk with hbefore | ⟨rfl, m, rfl⟩
  · obtain ⟨hasking, hseq⟩ := (h.node i hi).asking
    obtain ⟨n, hn, heq⟩ := id hbefore
    have hsame : (σ.1.nodes i).handleMessage (cfg.at i) msg = some (σ.1.nodes i, []) :=
      handleMessage_before hasking ⟨n, hn.trans_le hseq, heq⟩
    obtain ⟨rfl, rfl⟩ := Prod.mk.inj (Option.some.inj (hsame.symm.trans hm))
    exact .inl ⟨hbefore, afterDelivery_unchanged ..⟩
  · have hsent : SentAll cfg rd σ.1 m := ⟨k, hk⟩
    have harriving : Arriving cfg rd σ i m :=
      { node := hi
        fresh := hnew
        sent := hsent
        handled := fun m' hm' => h.sent_of_handled hm'
        voter := by
          rintro k (rfl | rfl)
          · exact h.member k (.inl hsent)
          · exact h.member k (.inr hsent) }
    exact .inr ⟨m, p, outs, rfl, rfl, hsent, hm, harriving.received hl (h.node i hi) hm⟩

/-- A message of the round is handled. -/
theorem RoundInv.received (h : RoundInv cfg rd unused base σ) {i : ℕ} {m : RoundMsg}
    (hi : i ∈ rd.alive) (hsent : SentAll cfg rd σ.1 m) {p : PbftNode App R D}
    {outs : List (Output R D Out)}
    (hm : (σ.1.nodes i).handleMessage (cfg.at i) (m.toMessage cfg rd : Message R D) =
      some (p, outs)) (hreceived : Received cfg rd σ i m p outs) :
    RoundInv cfg rd unused base (afterDelivery σ i (m.toMessage cfg rd) p outs) := by
  obtain ⟨hnode, hemits⟩ := hreceived
  have hhist := history_afterDelivery σ i (m.toMessage cfg rd) p outs
  have hother : ∀ j, j ≠ i →
      (afterDelivery σ i (m.toMessage cfg rd) p outs).1.nodes j = σ.1.nodes j :=
    fun j hj => Function.update_of_ne hj ..
  refine
    { node := fun j hj => ?_
      proposal := h.proposal.mono hhist
      backed := fun k hk => ?_
      member := fun k hk => ?_
      history := fun k d m' hk => ?_
      handled := fun e he => ?_
      unused := fun j hj d hd hne => ?_
      relayed := ?_ }
  · by_cases hji : j = i
    · exact hji ▸ hnode
    · exact (h.node j hj).frame (hother j hji) (fun m' => by simp [afterDelivery, hji]) hhist
  · rcases hk.of_delivery hemits with hold | hprep | ⟨-, hq⟩
    · exact (h.backed k hold).mono hhist
    · cases hprep
    · exact hq.mono hhist
  · rcases hk with hk | hk <;> rcases hk.of_delivery hemits with hold | hvote | ⟨hvote, -⟩
    · exact h.member k (.inl hold)
    · cases hvote
      exact hi
    · cases hvote
    · exact h.member k (.inr hold)
    · cases hvote
    · cases hvote
      exact hi
  · rcases List.mem_append.mp hk with hk | hk
    · obtain ⟨o, ho, heq⟩ := List.mem_map.mp hk
      obtain ⟨-, rfl⟩ := Prod.mk.inj heq
      obtain ⟨rfl, hmsg⟩ := hemits.sends _ _ ho
      rcases hmsg with hmsg | ⟨hmsg, -⟩
      · exact .inr ⟨rfl, _, hmsg⟩
      · exact .inr ⟨rfl, _, hmsg⟩
    · exact h.history k d m' hk
  · rcases List.mem_cons.mp he with rfl | hold
    · exact .inr ⟨m, rfl, hsent.mono hhist⟩
    · exact (h.handled e hold).imp_right fun ⟨m', heq, hs⟩ => ⟨m', heq, hs.mono hhist⟩
  · by_cases hji : j = i
    · subst hji
      rw [afterDelivery_node]
      exact (h.unused j hj d hd hne).receive hne hm
    · rw [hother j hji]
      exact h.unused j hj d hd hne
  · have hrelayed : relayedOut (afterDelivery σ i (m.toMessage cfg rd) p outs).1.history =
        outs.filterMap Output.toRelayed ++ relayedOut σ.1.history := by
      simp [relayedOut, afterDelivery, List.filterMap_map]
    by_cases hlead : rd.leader = i
    · subst hlead
      rw [hrelayed, afterDelivery_node]
      rcases hemits.relays with ⟨hseq, houts⟩ | ⟨hold, hseq, houts⟩
      · rw [hseq, houts]
        exact h.relayed
      · rw [hseq, houts]
        rcases h.relayed with ⟨-, hbase⟩ | ⟨hlater, -⟩
        · exact .inr ⟨rfl, congrArg _ hbase⟩
        · omega
    · have houts := hemits.silent hlead
      rw [hrelayed, houts, hother _ hlead]
      exact h.relayed

/-- A message of an earlier round is turned away. -/
theorem RoundInv.turnedAway (h : RoundInv cfg rd unused base σ) {i : ℕ} {m : Message R D}
    (hm : m.Before rd.seqID) : RoundInv cfg rd unused base (σ.1, (i, m) :: σ.2) where
  node j hj := (h.node j hj).frame rfl (fun m' => by
    rw [List.mem_cons, or_iff_right]
    intro heq
    exact m'.not_before ((Prod.mk.inj heq).2 ▸ hm)) (List.Subset.refl _)
  proposal := h.proposal
  backed := h.backed
  member := h.member
  history := h.history
  handled e he := (List.mem_cons.mp he).elim (fun heq => .inl (heq ▸ hm)) (h.handled e)
  unused := h.unused
  relayed := h.relayed

/-- **What every delivery keeps.** -/
theorem RoundInv.step (h : RoundInv cfg rd unused base σ) (hl : rd.Lawful cfg)
    (hd : deliverOnce cfg rd.alive σ e = some τ) : RoundInv cfg rd unused base τ := by
  obtain ⟨-, hi, -, ⟨hbefore, rfl⟩ | ⟨m, p, outs, hm, rfl, hsent, hhandle, hreceived⟩⟩ :=
    h.deliver_cases hl hd
  · exact h.turnedAway hbefore
  · rw [hm] at hhandle ⊢
    exact h.received hi hsent hhandle hreceived

/-! ## The deliveries of a round end -/

/-- The messages of a round. -/
def roundMessages (cfg : PbftConfig App R D In Out) (rd : RoundPlan App R Out) :
    Finset (Message R D) :=
  insert (RoundMsg.proposal.toMessage cfg rd)
    (rd.alive.image (fun k => RoundMsg.toMessage cfg rd (.prepare k)) ∪
      rd.alive.image fun k => RoundMsg.toMessage cfg rd (.commit k))

theorem card_roundMessages_le (cfg : PbftConfig App R D In Out) (rd : RoundPlan App R Out) :
    (roundMessages cfg rd).card ≤ 2 * rd.alive.card + 1 := by
  have hprep := Finset.card_image_le (s := rd.alive)
    (f := fun k => (RoundMsg.toMessage cfg rd (.prepare k) : Message R D))
  have hcom := Finset.card_image_le (s := rd.alive)
    (f := fun k => (RoundMsg.toMessage cfg rd (.commit k) : Message R D))
  refine (Finset.card_insert_le _ _).trans ?_
  have hunion := Finset.card_union_le
    (rd.alive.image fun k => (RoundMsg.toMessage cfg rd (.prepare k) : Message R D))
    (rd.alive.image fun k => RoundMsg.toMessage cfg rd (.commit k))
  omega

/-- What a node has sent. -/
def Output.sent : Output R D Out → Option (Message R D)
  | .send _ m => some m
  | _ => none

/-- The messages that are delivered in a round that goes on from a history. -/
def deliverable (cfg : PbftConfig App R D In Out) (rd : RoundPlan App R Out)
    (history : List (ℕ × Output R D Out)) : Finset (Message R D) :=
  (history.filterMap fun e => e.2.sent).toFinset ∪ roundMessages cfg rd

theorem mem_deliverable_of_mem {history : List (ℕ × Output R D Out)} {k : ℕ} {d : Dest}
    {m : Message R D} (h : (k, .send d m) ∈ history) : m ∈ deliverable cfg rd history := by
  refine Finset.mem_union_left _ (List.mem_toFinset.mpr ?_)
  exact List.mem_filterMap.mpr ⟨_, h, rfl⟩

theorem card_deliverable_le (history : List (ℕ × Output R D Out)) :
    (deliverable cfg rd history).card ≤ history.length + 2 * rd.alive.card + 1 := by
  have hold := (List.toFinset_card_le (history.filterMap fun e => e.2.sent)).trans
    (List.length_filterMap_le _ _)
  have hnew := card_roundMessages_le cfg rd
  refine (Finset.card_union_le _ _).trans ?_
  omega

/-- The deliveries that are left. -/
def left (alive : Finset ℕ) (ms : Finset (Message R D)) (σ : RoundState App R D Out) : ℕ :=
  ((alive ×ˢ ms) \ σ.2.toFinset).card

/-- Each delivery leaves one less. -/
theorem left_lt {alive : Finset ℕ} {ms : Finset (Message R D)}
    (hms : ∀ k d m, (k, .send d m) ∈ σ.1.history → m ∈ ms)
    (hd : deliverOnce cfg alive σ e = some τ) : left alive ms τ < left alive ms σ := by
  obtain ⟨i, m⟩ := e
  obtain ⟨hnew, hi, harr, p, outs, -, rfl⟩ := deliverOnce_some hd
  obtain ⟨k, d, hk⟩ := ShardState.arrives_receive harr
  refine Finset.card_lt_card (Finset.ssubset_iff_of_subset ?_ |>.mpr ⟨(i, m), ?_, ?_⟩)
  · rw [afterDelivery, List.toFinset_cons]
    exact Finset.sdiff_subset_sdiff (Finset.Subset.refl _) (Finset.subset_insert _ _)
  · rw [Finset.mem_sdiff, Finset.mem_product, List.mem_toFinset]
    exact ⟨⟨hi, hms k d m hk⟩, hnew⟩
  · rw [afterDelivery, Finset.mem_sdiff, not_and_not_right]
    exact fun _ => List.mem_toFinset.mpr List.mem_cons_self

/-- What is sent in a round is a message of it. -/
theorem RoundInv.sends (h : RoundInv cfg rd unused base σ) (hl : rd.Lawful cfg)
    {ms : Finset (Message R D)} (hround : roundMessages cfg rd ⊆ ms)
    (hms : ∀ k d m, (k, .send d m) ∈ σ.1.history → m ∈ ms)
    (hd : deliverOnce cfg rd.alive σ e = some τ) :
    ∀ k d m, (k, .send d m) ∈ τ.1.history → m ∈ ms := by
  obtain ⟨-, hi, -, hcases⟩ := h.deliver_cases hl hd
  intro k d msg hk
  rcases hcases with ⟨-, rfl⟩ | ⟨m, p, outs, hm, rfl, -, -, -, hemits⟩
  · exact hms k d msg hk
  · rcases List.mem_append.mp hk with hk | hk
    · obtain ⟨o, ho, heq⟩ := List.mem_map.mp hk
      obtain ⟨-, rfl⟩ := Prod.mk.inj heq
      refine hround (Finset.mem_insert_of_mem (Finset.mem_union.mpr ?_))
      rcases (hemits.sends _ _ ho).2 with rfl | ⟨rfl, -⟩
      · exact .inl (Finset.mem_image_of_mem _ hi)
      · exact .inr (Finset.mem_image_of_mem (fun k => RoundMsg.toMessage cfg rd (.commit k)) hi)
    · exact hms k d msg hk

/-- **The deliveries of a round end**: there is a bound on their number, and in some order
all that can be delivered is. -/
theorem RoundInv.ends (h : RoundInv cfg rd unused base σ) (hl : rd.Lawful cfg) :
    (∀ es τ, runWith (deliverOnce cfg rd.alive) (fun _ _ => True) σ es = some τ →
      RoundInv cfg rd unused base τ ∧
        es.length ≤ rd.alive.card * (σ.1.history.length + 2 * rd.alive.card + 1)) ∧
      ∃ es τ, runWith (deliverOnce cfg rd.alive) (fun _ _ => True) σ es = some τ ∧
        ∀ e, deliverOnce cfg rd.alive τ e = none := by
  have hround : roundMessages cfg rd ⊆ deliverable cfg rd σ.1.history :=
    Finset.subset_union_right
  have hstart : RoundInv cfg rd unused base σ ∧
      ∀ k d m, (k, .send d m) ∈ σ.1.history → m ∈ deliverable cfg rd σ.1.history :=
    ⟨h, fun _ _ _ hk => mem_deliverable_of_mem hk⟩
  have hstep : ∀ (ρ : RoundState App R D Out) e ρ', (RoundInv cfg rd unused base ρ ∧
      ∀ k d m, (k, .send d m) ∈ ρ.1.history → m ∈ deliverable cfg rd σ.1.history) → True →
      deliverOnce cfg rd.alive ρ e = some ρ' → (RoundInv cfg rd unused base ρ' ∧
        ∀ k d m, (k, .send d m) ∈ ρ'.1.history → m ∈ deliverable cfg rd σ.1.history) ∧
        left rd.alive (deliverable cfg rd σ.1.history) ρ' <
          left rd.alive (deliverable cfg rd σ.1.history) ρ := by
    exact fun ρ e ρ' hρ _ hd =>
      ⟨⟨hρ.1.step hl hd, hρ.1.sends hl hround hρ.2 hd⟩, left_lt hρ.2 hd⟩
  constructor
  · intro es τ hes
    refine ⟨(runWith_invariant _ (fun ρ e ρ' hρ _ hd => (hstep ρ e ρ' hρ trivial hd).1) hstart
      hes).1, ?_⟩
    have hlen := runWith_length_le _ _ hstep hstart hes
    have hleft : left rd.alive (deliverable cfg rd σ.1.history) σ ≤
        rd.alive.card * (σ.1.history.length + 2 * rd.alive.card + 1) := by
      refine (Finset.card_le_card Finset.sdiff_subset).trans ?_
      rw [Finset.card_product]
      exact Nat.mul_le_mul_left _ (card_deliverable_le _)
    omega
  · obtain ⟨es, ρ, hes, hstuck⟩ := exists_runWith_stuck _ _ hstep hstart
    exact ⟨es, ρ, hes, fun e => hstuck e trivial⟩

/-! ## Where nothing more can be delivered -/

omit [DecidableEq R] in
/-- A node handles what its stage lets in. -/
theorem Deciding.handles {p : PbftNode App R D} {i : ℕ} {got : RoundMsg → Bool}
    (h : Deciding cfg rd p i got) (hl : rd.Lawful cfg) {m : RoundMsg}
    (hm : got m = false) (hst : m.stage ≤ p.pbftStage)
    (hvoter : ∀ k, m = .prepare k ∨ m = .commit k → k ∈ rd.alive) :
    ∃ q outs, p.handleMessage (cfg.at i) (m.toMessage cfg rd : Message R D) = some (q, outs) := by
  cases m with
  | proposal =>
    obtain ⟨q, hq, -⟩ := h.proposal hm
    exact ⟨q, _, hq⟩
  | prepare k =>
    obtain ⟨q, outs, hq, -⟩ := h.prepare hl (hvoter k (.inl rfl)) hst
    exact ⟨q, outs, hq⟩
  | commit k =>
    obtain ⟨q, outs, hq, -⟩ := h.commit hl (hvoter k (.inr rfl)) hst
    exact ⟨q, outs, hq⟩

section Stuck

variable (h : RoundInv cfg rd unused base σ) (hl : rd.Lawful cfg)
  (hstuck : ∀ e, deliverOnce cfg rd.alive σ e = none) {i : ℕ} (hi : i ∈ rd.alive)

include h hl hstuck hi in
/-- What was sent and is let in has been handled. -/
theorem RoundInv.handled_of_stuck
    (hd : Deciding cfg rd (σ.1.nodes i) i fun m => decide ((i, m.toMessage cfg rd) ∈ σ.2))
    {m : RoundMsg} (hsent : SentAll cfg rd σ.1 m) (hst : m.stage ≤ (σ.1.nodes i).pbftStage) :
    (i, m.toMessage cfg rd) ∈ σ.2 := by
  by_contra hnew
  have hvoter : ∀ k, m = .prepare k ∨ m = .commit k → k ∈ rd.alive := by
    rintro k (rfl | rfl)
    · exact h.member k (.inl hsent)
    · exact h.member k (.inr hsent)
  obtain ⟨q, outs, hq⟩ := hd.handles hl (by simpa using hnew) hst hvoter
  have hnone := hstuck (i, m.toMessage cfg rd)
  rw [deliverOnce, if_neg (not_or.mpr ⟨not_not.mpr hi, hnew⟩), ShardState.step,
    if_pos ⟨hl.nodes i hi, Finset.notMem_empty i, hsent.arrives (cfg.ipOf i)⟩,
    PbftNode.nodeStep,
    hd.fault] at hnone
  simp [handleInput, hq] at hnone

include h hl hstuck hi in
/-- The PrePrepare has been handled, and the Prepare was sent. -/
theorem RoundInv.prepare_of_stuck
    (hd : Deciding cfg rd (σ.1.nodes i) i fun m => decide ((i, m.toMessage cfg rd) ∈ σ.2)) :
    (i, RoundMsg.proposal.toMessage cfg rd) ∈ σ.2 ∧ 2 ≤ (σ.1.nodes i).pbftStage := by
  have hpp : (i, RoundMsg.proposal.toMessage cfg rd) ∈ σ.2 := by
    refine h.handled_of_stuck hl hstuck hi hd h.proposal ?_
    rw [hd.pbftStage, RoundMsg.stage]
    split <;> omega
  refine ⟨hpp, ?_⟩
  rw [hd.pbftStage, if_pos (decide_eq_true hpp)]
  split <;> omega

include h hl hstuck hi in
/-- A quorum of Prepares has been handled, and the Commit was sent. -/
theorem RoundInv.commit_of_stuck
    (hd : Deciding cfg rd (σ.1.nodes i) i fun m => decide ((i, m.toMessage cfg rd) ∈ σ.2))
    (hq : QuorumSent cfg rd σ.1 .prepare) :
    (σ.1.nodes i).isCommitBordcast (rd.digest cfg) = true ∧ 3 ≤ (σ.1.nodes i).pbftStage := by
  obtain ⟨hpp, hst⟩ := h.prepare_of_stuck hl hstuck hi hd
  obtain ⟨S, hS, hall⟩ := hq
  have hbc : (σ.1.nodes i).isCommitBordcast (rd.digest cfg) = true := by
    refine hd.isCommitBordcast.mpr (hS.trans (Finset.card_le_card fun k hk => ?_))
    rw [hd.prepares, decide_eq_true_eq]
    exact h.handled_of_stuck hl hstuck hi hd (hall k hk) hst
  refine ⟨hbc, ?_⟩
  rw [hd.pbftStage, if_pos (decide_eq_true hpp), if_pos hbc]
  split <;> omega

include h hl hstuck in
/-- **Where nothing more can be delivered, every node that runs has committed.** -/
theorem RoundInv.decided : ∀ i ∈ rd.alive, DecidedRound rd (σ.1.nodes i) i := by
  intro i₀ hi₀
  by_contra hundecided
  -- a quorum of the votes was sent when some node has committed, or else by all
  have hquorum : QuorumSent cfg rd σ.1 .commit := by
    by_cases hsome : ∃ i ∈ rd.alive,
        DecidedRound rd (σ.1.nodes i) i ∧ QuorumSent cfg rd σ.1 .commit
    · obtain ⟨-, -, -, hq⟩ := hsome
      exact hq
    · have hnode : ∀ i ∈ rd.alive, _ := fun i hi =>
        (h.node i hi).resolve_right fun hdec => hsome ⟨i, hi, hdec⟩
      have hprep : QuorumSent cfg rd σ.1 .prepare := by
        refine ⟨_, hl.quorum, fun k hk => ?_⟩
        obtain ⟨hd, hp, -⟩ := hnode k hk
        exact hp (h.prepare_of_stuck hl hstuck hk hd).1
      refine ⟨_, hl.quorum, fun k hk => ?_⟩
      obtain ⟨hd, -, hc⟩ := hnode k hk
      exact hc (h.commit_of_stuck hl hstuck hk hd hprep).1
  obtain ⟨S, hS, hall⟩ := id hquorum
  obtain ⟨k₀, hk₀⟩ : S.Nonempty := by
    rw [← Finset.card_pos]
    refine lt_of_lt_of_le ?_ hS
    rw [PbftConfig.quorum]
    omega
  obtain ⟨hd, -, -⟩ := (h.node i₀ hi₀).resolve_right fun hdec => hundecided hdec.1
  have hst := (h.commit_of_stuck hl hstuck hi₀ hd (h.backed k₀ (hall k₀ hk₀))).2
  refine absurd hd.few (Nat.not_lt.mpr (hS.trans (Finset.card_le_card fun k hk => ?_)))
  rw [hd.commits, decide_eq_true_eq]
  exact h.handled_of_stuck hl hstuck hi₀ hd (hall k hk) hst

end Stuck

/-! ## The proposal -/

/-- What the goroutine of `Propose` does, one after the other. -/
def leaderInputs (now : ℕ) : List (NodeInput R D In) :=
  [.nextRound, .proposeCheck, .proposeLock, .proposeBroadcast now, .proposeStage]

/-- `Propose` at one node of a shard, from one end to the other. -/
def proposeAt (cfg : PbftConfig App R D In Out) (i now : ℕ) (s : ShardState App R D Out) :
    Option (ShardState App R D Out) :=
  runWith (ShardState.step cfg ∅) (fun _ _ => True) s ((leaderInputs now).map (.node i))

/-- The leader when it has proposed a request. -/
def proposed (c : PbftConfig App R D In Out) (p : PbftNode App R D) (r : R) (app : App) :
    PbftNode App R D :=
  { p.record c p.sequenceID r with
    curChain := app
    sequenceLock := some ⟨p.view, some (c.getDigest r)⟩
    proposers := ⟨0, 0, 0, 0⟩
    pbftStage := 2 }

section Propose

variable {s t : ShardState App R D Out} {i now n : ℕ} {view : ℤ} {app : App}

/-- **A proposal**: the leader broadcasts the request and waits for the votes. -/
theorem Ready.proposeAt (h : Ready view n app (s.nodes i)) (hi : i < cfg.nodeNums)
    (hview : (view % 2 ^ 64).toNat = i) {r : R} {app' : App}
    (hprop : cfg.ihm.handleinPropose i now app = some (r, app')) :
    BlockEmulator.proposeAt cfg i now s =
      some ⟨Function.update s.nodes i (proposed (cfg.at i) (s.nodes i) r app'),
        (i, .send .all (.prePrepare ⟨r, cfg.getDigest r, n⟩)) :: s.history⟩ := by
  have hmain : (view % 18446744073709551616).toNat = i := by simpa using hview
  -- the five inputs, one after the other
  simp [BlockEmulator.proposeAt, leaderInputs, runWith, ShardState.step, PbftNode.nodeStep,
    handleInput, ShardState.arrives, PbftNode.isMain, mainNode, PbftNode.proposeBroadcast, record,
    proposed, hi, hmain, hprop, h.view, h.sequenceID, h.curChain, h.fault, h.proposers,
    h.sequenceLock, h.pbftStage]

end Propose

/-! ## Between rounds -/

/-- A shard between two rounds: its nodes are ready for the next one, and no message is of
it. -/
structure Between (cfg : PbftConfig App R D In Out) (alive : Finset ℕ) (view : ℤ) (n : ℕ)
    (app : ℕ → App) (unused : Set D) (σ : RoundState App R D Out) : Prop where
  /-- its nodes -/
  ready : ∀ i ∈ alive, Ready view n (app i) (σ.1.nodes i)
  /-- what was sent is of earlier rounds -/
  history : ∀ k d m, (k, .send d m) ∈ σ.1.history → m.Before n
  /-- what was handled is of earlier rounds -/
  handled : ∀ e ∈ σ.2, e.2.Before n
  /-- there are no votes on some digests -/
  unused : ∀ i ∈ alive, ∀ d ∈ unused, Unvoted (σ.1.nodes i) d

omit [DecidableEq R] [DecidableEq D] in
theorem Message.Before.succ {n : ℕ} {m : Message R D} (h : m.Before n) : m.Before (n + 1) := by
  obtain ⟨k, hk, heq⟩ := h
  exact ⟨k, hk.trans (Nat.lt_succ_self n), heq⟩

omit [DecidableEq R] [DecidableEq D] in
theorem RoundMsg.before_succ (m : RoundMsg) :
    (m.toMessage cfg rd : Message R D).Before (rd.seqID + 1) :=
  ⟨_, Nat.lt_succ_self _, m.toMessage_seqID⟩

/-- **The end of a round.** -/
theorem RoundInv.between (h : RoundInv cfg rd unused base σ)
    (hdecided : ∀ i ∈ rd.alive, DecidedRound rd (σ.1.nodes i) i) :
    Between cfg rd.alive rd.view (rd.seqID + 1) rd.after (unused \ {rd.digest cfg}) σ where
  ready := hdecided
  history k d m hk := by
    rcases h.history k d m hk with hbefore | ⟨-, m', rfl⟩
    · exact hbefore.succ
    · exact m'.before_succ
  handled e he := by
    rcases h.handled e he with hbefore | ⟨m', heq, -⟩
    · exact hbefore.succ
    · exact heq ▸ m'.before_succ
  unused i hi d hd := h.unused i hi d hd.1 hd.2

section Start

variable {p : PbftNode App R D} {i : ℕ} {got : RoundMsg → Bool}
  (hgot : ∀ m, got m = false) (hagrees : Agrees cfg rd i) (hv : Unvoted p (rd.digest cfg))
  (hq : 0 < cfg.quorum)

omit [DecidableEq R] [DecidableEq D] in
include hgot hagrees hv hq in
/-- A replica at the start of a round. -/
theorem Ready.replica (h : Ready rd.view rd.seqID (rd.before i) p) (hlead : rd.leader ≠ i) :
    Deciding cfg rd p i got where
  agrees := hagrees
  view := h.view
  sequenceID := h.sequenceID
  curChain := h.curChain
  asking := h.asking
  fault := h.fault
  proposers := h.proposers
  sequenceLock := by simp [h.sequenceLock, hlead]
  pbftStage := by simp [h.pbftStage, hlead, hgot, hv.isCommitBordcast]
  requestPool := by simp [hgot, hlead]
  prepares := by simp [hv.prepares, hgot]
  isCommitBordcast := by simp [hv.isCommitBordcast, hv.prepares, hq.ne']
  known := by simp [hv.isCommitBordcast]
  commits := by simp [hv.commits, hgot]
  few := by simp [hv.commits, hq]
  isReply := hv.isReply

omit [DecidableEq R] in
include hgot hagrees hv hq in
/-- The leader, when it has proposed the request. -/
theorem Ready.leading {app : App} (h : Ready rd.view rd.seqID app p) (hlead : rd.leader = i) :
    Deciding cfg rd (proposed (cfg.at i) p rd.request (rd.before i)) i got where
  agrees := hagrees
  view := h.view
  sequenceID := h.sequenceID
  curChain := rfl
  asking := h.asking
  fault := h.fault
  proposers := rfl
  sequenceLock := by simp [proposed, hlead]
  pbftStage := by simp [proposed, record, hlead, hgot, hv.isCommitBordcast]
  requestPool _ := Function.update_self ..
  prepares := by simp [proposed, record, hv.prepares, hgot]
  isCommitBordcast := by simp [proposed, record, hv.isCommitBordcast, hv.prepares, hq.ne']
  known := by simp [proposed, record, hv.isCommitBordcast]
  commits := by simp [proposed, record, hv.commits, hgot]
  few := by simp [proposed, record, hv.commits, hq]
  isReply := hv.isReply

end Start

/-- **The start of a round**: the leader proposes a request on which nobody has voted. -/
theorem Between.proposes {app : ℕ → App}
    (h : Between cfg rd.alive rd.view rd.seqID app unused σ) (hl : rd.Lawful cfg)
    (hagrees : ∀ i ∈ rd.alive, Agrees cfg rd i) (hdigest : rd.digest cfg ∈ unused)
    (happ : ∀ i ∈ rd.alive, i ≠ rd.leader → app i = rd.before i)
    {now : ℕ} (hprop : cfg.ihm.handleinPropose rd.leader now (app rd.leader) =
      some (rd.request, rd.before rd.leader)) :
    ∃ s, proposeAt cfg rd.leader now σ.1 = some s ∧
      RoundInv cfg rd unused (relayedOut σ.1.history) (s, σ.2) := by
  have hready := h.ready rd.leader hl.leader
  have hprops := hready.proposeAt (hl.nodes _ hl.leader) hl.view hprop
  have hq : 0 < cfg.quorum := by
    rw [PbftConfig.quorum]
    omega
  have hgot : ∀ i (m : RoundMsg), decide ((i, m.toMessage cfg rd) ∈ σ.2) = false :=
    fun i m => decide_eq_false fun hm => m.not_before (h.handled _ hm)
  -- what was sent is the proposal, or of an earlier round
  have hsent : ∀ {m : RoundMsg}, SentAll cfg rd
      ⟨Function.update σ.1.nodes rd.leader
          (proposed (cfg.at rd.leader) (σ.1.nodes rd.leader) rd.request (rd.before rd.leader)),
        (rd.leader, .send .all (.prePrepare ⟨rd.request, cfg.getDigest rd.request, rd.seqID⟩)) ::
          σ.1.history⟩ m → m = .proposal := by
    rintro m ⟨k, hk⟩
    rcases List.mem_cons.mp hk with heq | hold
    · exact RoundMsg.toMessage_inj (Output.send.inj (Prod.mk.inj heq).2).2
    · exact absurd (h.history _ _ _ hold) m.not_before
  refine ⟨_, hprops, ?_⟩
  refine
    { node := fun i hi => .inl ⟨?_, fun hm => ?_, fun hbc => ?_⟩
      proposal := ⟨rd.leader, List.mem_cons_self⟩
      backed := fun k hk => nomatch hsent hk
      member := fun k hk => hk.elim (fun hk => nomatch hsent hk) fun hk => nomatch hsent hk
      history := fun k d m hk => ?_
      handled := fun e he => .inl (h.handled e he)
      unused := fun i hi d hd _ => ?_
      relayed := .inl ⟨?_, rfl⟩ }
  · by_cases hlead : rd.leader = i
    · subst hlead
      dsimp only
      rw [Function.update_self]
      exact hready.leading (hgot _) (hagrees _ hi) (h.unused _ hi _ hdigest) hq rfl
    · dsimp only
      rw [Function.update_of_ne (Ne.symm hlead)]
      exact (happ i hi (Ne.symm hlead) ▸ h.ready i hi).replica (hgot _) (hagrees _ hi)
        (h.unused _ hi _ hdigest) hq hlead
  · exact absurd hm (of_decide_eq_false (hgot i .proposal))
  · have hnone := (h.unused i hi _ hdigest).isCommitBordcast
    by_cases hlead : rd.leader = i
    · subst hlead
      dsimp only at hbc
      rw [Function.update_self] at hbc
      exact absurd hbc (by simp [proposed, record, hnone])
    · dsimp only at hbc
      rw [Function.update_of_ne (Ne.symm hlead), hnone] at hbc
      cases hbc
  · rcases List.mem_cons.mp hk with heq | hold
    · obtain ⟨rfl, rfl⟩ := Output.send.inj (Prod.mk.inj heq).2
      exact .inr ⟨rfl, .proposal, rfl⟩
    · exact .inl (h.history k d m hold)
  · by_cases hlead : i = rd.leader
    · subst hlead
      dsimp only
      rw [Function.update_self]
      exact (h.unused _ hi d hd).congr rfl rfl rfl rfl
    · dsimp only
      rw [Function.update_of_ne hlead]
      exact h.unused i hi d hd
  · dsimp only
    rw [Function.update_self]
    exact hready.sequenceID

omit [DecidableEq R] [DecidableEq D] in
/-- A shard just started is between rounds. -/
theorem Between.new {height : App → ℕ} {apps : ℕ → App} {n : ℕ}
    (h : ∀ i ∈ alive, height (apps i) = n) :
    Between cfg alive 0 (n + 1) apps Set.univ (ShardState.new height apps, []) where
  ready i hi := ⟨rfl, congrArg (· + 1) (h i hi), rfl, rfl, rfl, rfl, rfl, rfl⟩
  history _ _ _ hk := nomatch hk
  handled _ he := nomatch he
  unused _ _ _ _ := ⟨rfl, rfl, rfl, rfl⟩

end

/-- Whether a commit goes well, and sends nothing unless it is the leader's. -/
def CommitResult.quietUnless (leads : Bool) : CommitResult App Out → Bool
  | .done _ outs => leads || outs.isEmpty
  | _ => false

theorem CommitResult.quietUnless_eq_true {leads : Bool} {r : CommitResult App Out}
    (h : r.quietUnless leads = true) :
    ∃ app outs, r = .done app outs ∧ (leads = false → outs = []) := by
  cases r with
  | panic app => cases h
  | rejected => cases h
  | done app outs =>
    refine ⟨app, outs, rfl, ?_⟩
    rintro rfl
    exact List.isEmpty_iff.mp h

/-- The chain of a leader with a payment from shard to shard in its pool. -/
def crossLeaderChain : BlockChain FreeHash :=
  { genesisChain fourNodesChain with
    txpool := { TxPool.new with txQueue := [some crossTransaction] } }

/-- The chains of four nodes, the first of which is this leader. -/
def crossChains (i : ℕ) : BlockChain FreeHash :=
  if i = 0 then crossLeaderChain else genesisChain fourNodesChain

/-- The round in which node 0 proposes it, while node 3 does not run. -/
def crossRound : RoundPlan (BlockChain FreeHash) FreeRequest Outgoing :=
  .of fourNodes {0, 1, 2} 0 0 1 crossRequest fun i =>
    if i = 0 then
      ((RawRelay.handleinPropose fourNodesChain 0 7 crossLeaderChain).map Prod.snd).getD
        crossLeaderChain
    else genesisChain fourNodesChain

end BlockEmulator
