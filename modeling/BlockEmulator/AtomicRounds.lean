import BlockEmulator.ShardRound

/-!
# Rounds of consensus as single steps

A shard whose leader stays and in which some nodes may never run. Its leader proposes when
all have committed what it proposed before; messages are delivered, each at most once to
each node; messages from outside the shard come to any node at any time.

`AtomicShard` is the same shard as one state, in which a round is one step. It is the view
of a shard that the models of whole systems take.

* `AtomicModule` — what a module has to satisfy.
* `Related.step` — the simulation: a round is taken to happen when it is proposed.
-/

namespace BlockEmulator

open StepSystem PbftNode

variable {App R D In Out : Type}

/-! ## The two systems -/

/-- What can happen in a shard. -/
inductive RoundEvent (R D In : Type) where
  /-- a message from outside comes to a node -/
  | outside (i : ℕ) (m : In)
  /-- the leader proposes -/
  | propose (now : ℕ)
  /-- a message of the shard comes to a node -/
  | deliver (i : ℕ) (m : Message R D)

/-- One step of a shard of nodes. -/
def roundStep [DecidableEq R] [DecidableEq D] (cfg : PbftConfig App R D In Out)
    (alive : Finset ℕ) (leader : ℕ) (σ : RoundState App R D Out) :
    RoundEvent R D In → Option (RoundState App R D Out)
  | .outside i m =>
    if i ∈ alive then (σ.1.step cfg ∅ (.node i (.outside m))).map (·, σ.2) else none
  | .propose now =>
    -- all have committed what was proposed before
    if ∀ i ∈ alive, (σ.1.nodes i).sequenceID = (σ.1.nodes leader).sequenceID then
      (proposeAt cfg leader now σ.1).map (·, σ.2)
    else none
  | .deliver i m => deliverOnce cfg alive σ (i, m)

/-- A shard in which rounds are single steps. -/
structure AtomicShard (App Out : Type) where
  /-- what its leader runs over -/
  app : App
  /-- the number of the next request -/
  seqID : ℕ
  /-- what it has sent out of the shard, the latest first -/
  sent : List Out

/-- One of its steps. -/
def AtomicShard.step (cfg : PbftConfig App R D In Out) (leader : ℕ) (outer : In → Bool)
    (fits : App → In → Bool) (a : AtomicShard App Out) :
    RoundEvent R D In → Option (AtomicShard App Out)
  | .outside i m =>
    if outer m = true then
      if i = leader then
        if fits a.app m = true then
          (cfg.ohm.handleMessageOutsidePBFT a.app m).map fun app => { a with app := app }
        else none
      else some a
    else none
  | .propose now =>
    (cfg.ihm.handleinPropose leader now a.app).bind fun r =>
      match cfg.ihm.handleinCommit true a.seqID r.2 r.1 with
      | .done app outs => some ⟨app, a.seqID + 1, outs ++ a.sent⟩
      | _ => none
  | .deliver _ _ => some a

/-- Whether an event is seen in the view of the shard as one state. -/
def RoundEvent.seen (leader : ℕ) : RoundEvent R D In → Bool
  | .outside i _ => i = leader
  | .propose _ => true
  | .deliver _ _ => false

/-- What is not seen changes nothing. -/
theorem AtomicShard.run_seen {cfg : PbftConfig App R D In Out} {leader : ℕ} {outer : In → Bool}
    {fits : App → In → Bool} {es : List (RoundEvent R D In)}
    (h : ∀ i m, .outside i m ∈ es → outer m = true) (a : AtomicShard App Out) :
    runWith (AtomicShard.step cfg leader outer fits) (fun _ _ => True) a es =
      runWith (AtomicShard.step cfg leader outer fits) (fun _ _ => True) a
        (es.filter (·.seen leader)) := by
  induction es generalizing a with
  | nil => rfl
  | cons e es ih =>
    have ih := ih fun i m hm => h i m (List.mem_cons_of_mem _ hm)
    rw [runWith, if_pos trivial]
    cases hseen : e.seen leader with
    | true =>
      rw [List.filter_cons_of_pos hseen, runWith, if_pos trivial]
      exact Option.bind_congr fun b _ => ih b
    | false =>
      have hstays : a.step cfg leader outer fits e = some a := by
        cases e with
        | outside i m =>
          rw [AtomicShard.step, if_pos (h i m List.mem_cons_self),
            if_neg (of_decide_eq_false hseen)]
        | propose now => cases hseen
        | deliver i m => rfl
      rw [List.filter_cons_of_neg (by simp [hseen]), hstays, Option.bind_some]
      exact ih a

/-- What a module has to satisfy: `Same` says that a replica is in the state of the leader,
`outer` which messages from outside there are, and `fits` which of them may come to the
leader. -/
structure AtomicModule (cfg : PbftConfig App R D In Out) (leader : ℕ) (number : R → Option ℕ)
    (Same : App → App → Prop) (outer : In → Bool) (fits : App → In → Bool) : Prop where
  /-- what consensus relies on -/
  lawful : LawfulModule cfg.ihm cfg.ohm number
  /-- requests of one digest have one number -/
  digest : ∀ r r', cfg.getDigest r = cfg.getDigest r' → number r = number r'
  /-- every message from outside is handled -/
  handles : ∀ app m, outer m = true →
    ∃ app', cfg.ohm.handleMessageOutsidePBFT app m = some app'
  /-- it does not move the state of a replica -/
  replica : ∀ {a b m b'}, Same a b → outer m = true →
    cfg.ohm.handleMessageOutsidePBFT b m = some b' → Same a b'
  /-- or of the leader -/
  leading : ∀ {a b m a'}, Same a b → outer m = true →
    cfg.ohm.handleMessageOutsidePBFT a m = some a' → Same a' b
  /-- what the leader can commit, it and every replica accepts and commits -/
  round : ∀ {a now r a₁ n a' outs}, cfg.ihm.handleinPropose leader now a = some (r, a₁) →
    cfg.ihm.handleinCommit true n a₁ r = .done a' outs →
      cfg.ihm.handleinPrePrepare a₁ r = some true ∧ ∀ b, Same a b →
        cfg.ihm.handleinPrePrepare b r = some true ∧
          ∃ b', cfg.ihm.handleinCommit false n b r = .done b' [] ∧ Same a' b'
  /-- a message that comes to the leader in a round might as well come after it -/
  pending : ∀ {c r n g outs m c'}, cfg.ihm.handleinPrePrepare c r = some true →
    cfg.ihm.handleinCommit true n c r = .done g outs → outer m = true → fits g m = true →
      cfg.ohm.handleMessageOutsidePBFT c m = some c' →
        ∃ g', cfg.ohm.handleMessageOutsidePBFT g m = some g' ∧
          cfg.ihm.handleinPrePrepare c' r = some true ∧
          cfg.ihm.handleinCommit true n c' r = .done g' outs

/-! ## Messages from outside in a round -/

/-- A round in which a node has heard something from outside. -/
def RoundPlan.hear (rd : RoundPlan App R Out) (i : ℕ) (before after : App) :
    RoundPlan App R Out :=
  { rd with
    before := Function.update rd.before i before
    after := Function.update rd.after i after }

section

variable [DecidableEq R] [DecidableEq D] {cfg : PbftConfig App R D In Out}
  {rd : RoundPlan App R Out} {unused : Set D} {base : List Out} {σ : RoundState App R D Out}
  {i j : ℕ} {before after : App} {p : PbftNode App R D} {got : RoundMsg → Bool}

omit [DecidableEq R] [DecidableEq D] in
@[simp] theorem RoundPlan.hear_before : (rd.hear i before after).before i = before :=
  Function.update_self ..

omit [DecidableEq R] [DecidableEq D] in
@[simp] theorem RoundPlan.hear_after : (rd.hear i before after).after i = after :=
  Function.update_self ..

omit [DecidableEq R] [DecidableEq D] in
theorem RoundPlan.hear_before_other (hj : j ≠ i) :
    (rd.hear i before after).before j = rd.before j :=
  Function.update_of_ne hj ..

omit [DecidableEq R] [DecidableEq D] in
theorem RoundPlan.hear_after_other (hj : j ≠ i) : (rd.hear i before after).after j = rd.after j :=
  Function.update_of_ne hj ..

omit [DecidableEq R] [DecidableEq D] in
theorem Agrees.hear_other (h : Agrees cfg rd j) (hj : j ≠ i) :
    Agrees cfg (rd.hear i before after) j := by
  refine ⟨?_, ?_, h.silent⟩
  · rw [RoundPlan.hear_before_other hj]
    exact h.accepted
  · rw [RoundPlan.hear_before_other hj, RoundPlan.hear_after_other hj]
    exact h.committed

omit [DecidableEq R] [DecidableEq D] in
theorem Deciding.hear_other (h : Deciding cfg rd p j got) (hj : j ≠ i) :
    Deciding cfg (rd.hear i before after) p j got :=
  { h with
    agrees := h.agrees.hear_other hj
    curChain := h.curChain.trans (RoundPlan.hear_before_other hj).symm }

omit [DecidableEq R] [DecidableEq D] in
theorem Deciding.hear (h : Deciding cfg rd p i got)
    (hagrees : Agrees cfg (rd.hear i before after) i) :
    Deciding cfg (rd.hear i before after) { p with curChain := before } i got :=
  { h with
    agrees := hagrees
    curChain := RoundPlan.hear_before.symm }

omit [DecidableEq D] [DecidableEq R] in
theorem Ready.hear {view : ℤ} {n : ℕ} {app : App} (h : Ready view n app p) (app' : App) :
    Ready view n app' { p with curChain := app' } :=
  ⟨h.view, h.sequenceID, rfl, h.asking, h.fault, h.proposers, h.sequenceLock, h.pbftStage⟩

omit [DecidableEq D] [DecidableEq R] in
theorem RoundMsg.toMessage_hear (m : RoundMsg) :
    (m.toMessage cfg (rd.hear i before after) : Message R D) = m.toMessage cfg rd := by
  cases m <;> rfl

/-- A node of a shard that has heard something. -/
def heard (σ : RoundState App R D Out) (i : ℕ) (app : App) : RoundState App R D Out :=
  (⟨Function.update σ.1.nodes i { σ.1.nodes i with curChain := app }, σ.1.history⟩, σ.2)

omit [DecidableEq D] [DecidableEq R] in
@[simp] theorem heard_node (app : App) :
    (heard σ i app).1.nodes i = { σ.1.nodes i with curChain := app } :=
  Function.update_self ..

omit [DecidableEq D] [DecidableEq R] in
theorem heard_other (app : App) (hj : j ≠ i) : (heard σ i app).1.nodes j = σ.1.nodes j :=
  Function.update_of_ne hj ..

omit [DecidableEq D] [DecidableEq R] in
theorem sentAll_hear {s t : ShardState App R D Out} (hs : t.history = s.history) {m : RoundMsg} :
    SentAll cfg (rd.hear i before after) t m ↔ SentAll cfg rd s m := by
  rw [SentAll, SentAll, hs, RoundMsg.toMessage_hear]

omit [DecidableEq D] [DecidableEq R] in
theorem quorumSent_hear {s t : ShardState App R D Out} (hs : t.history = s.history)
    {m : ℕ → RoundMsg} :
    QuorumSent cfg (rd.hear i before after) t m ↔ QuorumSent cfg rd s m := by
  simp only [QuorumSent, sentAll_hear hs]

/-- What a message from outside does in a round. -/
theorem RoundInv.hear (h : RoundInv cfg rd unused base σ) {app : App}
    (hdeciding : Deciding cfg rd (σ.1.nodes i) i (fun m => (i, m.toMessage cfg rd) ∈ σ.2) →
      Agrees cfg (rd.hear i before after) i ∧ app = before)
    (hdecided : DecidedRound rd (σ.1.nodes i) i → app = after) :
    RoundInv cfg (rd.hear i before after) unused base (heard σ i app) where
  node j hj := by
    have hgot : (fun m : RoundMsg =>
        decide ((j, m.toMessage cfg (rd.hear i before after)) ∈ (heard σ i app).2)) =
          fun m => decide ((j, m.toMessage cfg rd) ∈ σ.2) := by
      funext m
      rw [RoundMsg.toMessage_hear]
      rfl
    rw [NodeInv, hgot, sentAll_hear rfl, sentAll_hear rfl, quorumSent_hear rfl,
      RoundMsg.toMessage_hear]
    rcases h.node j hj with ⟨hd, hprep, hcom⟩ | ⟨hd, hq⟩
    · refine .inl ⟨?_, hprep, fun hbc => hcom ?_⟩
      · by_cases hji : j = i
        · subst hji
          obtain ⟨hagrees, rfl⟩ := hdeciding hd
          rw [heard_node]
          exact hd.hear hagrees
        · rw [heard_other app hji]
          exact hd.hear_other hji
      · by_cases hji : j = i
        · subst hji
          rwa [heard_node] at hbc
        · rwa [heard_other app hji] at hbc
    · refine .inr ⟨?_, hq⟩
      by_cases hji : j = i
      · subst hji
        obtain rfl := hdecided hd
        rw [heard_node, DecidedRound, RoundPlan.hear_after]
        exact hd.hear app
      · rw [heard_other app hji, DecidedRound, RoundPlan.hear_after_other hji]
        exact hd
  proposal := (sentAll_hear rfl).mpr h.proposal
  backed k hk := (quorumSent_hear rfl).mpr (h.backed k ((sentAll_hear rfl).mp hk))
  member k hk := h.member k (hk.imp (sentAll_hear rfl).mp (sentAll_hear rfl).mp)
  history k d m hk := by
    refine (h.history k d m hk).imp_right fun hround => ?_
    obtain ⟨hd, m', hm'⟩ := hround
    exact ⟨hd, m', by rw [hm', RoundMsg.toMessage_hear]⟩
  handled e he := by
    refine (h.handled e he).imp_right fun hround => ?_
    obtain ⟨m', hm', hs⟩ := hround
    exact ⟨m', by rw [hm', RoundMsg.toMessage_hear], (sentAll_hear rfl).mpr hs⟩
  unused j hj d hd hne := by
    by_cases hji : j = i
    · subst hji
      rw [heard_node]
      exact (h.unused j hj d hd hne).congr rfl rfl rfl rfl
    · rw [heard_other app hji]
      exact h.unused j hj d hd hne
  relayed := by
    have hseq : ((heard σ i app).1.nodes rd.leader).sequenceID =
        (σ.1.nodes rd.leader).sequenceID := by
      by_cases hji : rd.leader = i
      · rw [← hji, heard_node]
      · rw [heard_other app hji]
    exact hseq ▸ h.relayed

end

/-! ## The simulation -/

/-- The digests of requests from this number on. -/
def unusedFrom (cfg : PbftConfig App R D In Out) (number : R → Option ℕ) (n : ℕ) : Set D :=
  {d | ∀ r k, cfg.getDigest r = d → number r = some k → n ≤ k}

section

variable {cfg : PbftConfig App R D In Out} {number : R → Option ℕ} {n : ℕ} {r : R}
  (hdigest : ∀ r r', cfg.getDigest r = cfg.getDigest r' → number r = number r')
  (hr : number r = some n)

include hdigest hr in
theorem digest_mem_unusedFrom : cfg.getDigest r ∈ unusedFrom cfg number n := by
  intro r' k hd hk
  rw [hdigest r' r hd, hr] at hk
  exact (Option.some.inj hk).le

include hr in
theorem unusedFrom_succ_subset :
    unusedFrom cfg number (n + 1) ⊆ unusedFrom cfg number n \ {cfg.getDigest r} := by
  intro d hd
  refine ⟨fun r' k hd' hk => (Nat.le_succ n).trans (hd r' k hd' hk), fun heq => ?_⟩
  exact absurd (hd r n (Set.mem_singleton_iff.mp heq).symm hr) (Nat.not_succ_le_self n)

end

section

variable [DecidableEq R] [DecidableEq D] (cfg : PbftConfig App R D In Out) (alive : Finset ℕ)
  (leader : ℕ) (view : ℤ) (number : R → Option ℕ) (Same : App → App → Prop)

/-- A shard between two rounds, and its view as one state. -/
structure Idle (app : ℕ → App) (σ : RoundState App R D Out) (a : AtomicShard App Out) : Prop where
  /-- it is between the rounds -/
  between : Between cfg alive view a.seqID app (unusedFrom cfg number a.seqID) σ
  /-- the leader is in the state -/
  leading : app leader = a.app
  /-- so are the replicas -/
  replicas : ∀ i ∈ alive, i ≠ leader → Same a.app (app i)
  /-- this was sent -/
  sent : relayedOut σ.1.history = a.sent

/-- A shard in a round, and its view as one state: in that, the round is over. -/
structure Busy (rd : RoundPlan App R Out) (start : App) (base : List Out)
    (σ : RoundState App R D Out) (a : AtomicShard App Out) : Prop where
  /-- these nodes run -/
  runs : rd.alive = alive
  /-- this is the leader -/
  leads : rd.leader = leader
  /-- this is the view -/
  inView : rd.view = view
  /-- this is the number of the round -/
  seqID : a.seqID = rd.seqID + 1
  /-- the request has it -/
  numbered : number rd.request = some rd.seqID
  /-- the round is on -/
  round : RoundInv cfg rd (unusedFrom cfg number rd.seqID) base σ
  /-- the leader will be in the state -/
  after : rd.after leader = a.app
  /-- it would agree on the request -/
  agrees : Agrees cfg rd leader
  /-- replicas were in the state in which the round started, and will be in this one -/
  replicas : ∀ i ∈ alive, i ≠ leader →
    Same start (rd.before i) ∧ Same a.app (rd.after i) ∧ rd.relays i = []
  /-- whatever is in the state in which the round started agrees on the request -/
  agreeing : ∀ b, Same start b → cfg.ihm.handleinPrePrepare b rd.request = some true ∧
    ∃ b', cfg.ihm.handleinCommit false rd.seqID b rd.request = .done b' [] ∧ Same a.app b'
  /-- this will have been sent -/
  sent : a.sent = rd.relays leader ++ base

/-- A shard of nodes and its view as one state. -/
structure Related (σ : RoundState App R D Out) (a : AtomicShard App Out) : Prop where
  /-- the next request is on top of the chain -/
  height : a.seqID = cfg.ihm.height a.app + 1
  /-- the shard is between two rounds, or in one -/
  phase : (∃ app, Idle cfg alive leader view number Same app σ a) ∨
    ∃ rd start base, Busy cfg alive leader view number Same rd start base σ a

end

section

variable [DecidableEq R] [DecidableEq D] {cfg : PbftConfig App R D In Out} {alive : Finset ℕ}
  {leader : ℕ} {view : ℤ} {number : R → Option ℕ} {Same : App → App → Prop}
  {outer : In → Bool} {fits : App → In → Bool} {σ τ : RoundState App R D Out}
  {a b : AtomicShard App Out} {i : ℕ} {m : In}

/-! ### Between rounds -/

/-- Between rounds every message is turned away. -/
theorem Between.deliver {n : ℕ} {app : ℕ → App} {unused : Set D} {e : ℕ × Message R D}
    (h : Between cfg alive view n app unused σ) (hd : deliverOnce cfg alive σ e = some τ) :
    Between cfg alive view n app unused τ ∧ τ.1 = σ.1 := by
  obtain ⟨i, m⟩ := e
  obtain ⟨-, hi, harr, p, outs, hm, rfl⟩ := deliverOnce_some hd
  obtain ⟨k, d, hk⟩ := ShardState.arrives_receive harr
  have hbefore := h.history k d m hk
  have hready := h.ready i hi
  have hsame : (σ.1.nodes i).handleMessage (cfg.at i) m = some (σ.1.nodes i, []) :=
    handleMessage_before hready.asking (hready.sequenceID.symm ▸ hbefore)
  obtain ⟨rfl, rfl⟩ := Prod.mk.inj (Option.some.inj (hsame.symm.trans hm))
  rw [afterDelivery_unchanged]
  refine ⟨⟨h.ready, h.history, fun e he => ?_, h.unused⟩, rfl⟩
  rcases List.mem_cons.mp he with rfl | he
  · exact hbefore
  · exact h.handled e he

omit [DecidableEq R] [DecidableEq D] in
theorem Between.hear {n : ℕ} {app : ℕ → App} {unused : Set D}
    (h : Between cfg alive view n app unused σ) (c : App) :
    Between cfg alive view n (Function.update app i c) unused (heard σ i c) where
  ready j hj := by
    by_cases hji : j = i
    · subst hji
      rw [heard_node, Function.update_self]
      exact (h.ready j hj).hear c
    · rw [heard_other c hji, Function.update_of_ne hji]
      exact h.ready j hj
  history := h.history
  handled := h.handled
  unused j hj d hd := by
    by_cases hji : j = i
    · subst hji
      rw [heard_node]
      exact (h.unused j hj d hd).congr rfl rfl rfl rfl
    · rw [heard_other c hji]
      exact h.unused j hj d hd

/-- A message from outside at a node. -/
theorem roundStep_outside {c : App}
    (hc : cfg.ohm.handleMessageOutsidePBFT (σ.1.nodes i).curChain m = some c)
    (h : roundStep cfg alive leader σ (.outside i m) = some τ) : i ∈ alive ∧ τ = heard σ i c := by
  rw [roundStep] at h
  split at h
  · rename_i hi
    obtain ⟨s, hs, rfl⟩ := Option.map_eq_some_iff.mp h
    refine ⟨hi, ?_⟩
    rw [ShardState.step] at hs
    split at hs
    · obtain ⟨⟨p, outs⟩, hp, rfl⟩ := Option.map_eq_some_iff.mp hs
      rw [PbftNode.nodeStep] at hp
      split at hp
      · cases hp
      · rw [handleInput, PbftConfig.at_ohm, hc] at hp
        obtain ⟨rfl, rfl⟩ := Prod.mk.inj (Option.some.inj hp)
        rfl
    · cases hs
  · cases h

/-- A leader that proposes is at the stage of a new round. -/
theorem proposeAt_stage {s t : ShardState App R D Out} {now : ℕ}
    (h : proposeAt cfg leader now s = some t) : (s.nodes leader).pbftStage = 1 := by
  by_contra hst
  have hnone : s.step cfg ∅ (.node leader (.nextRound : NodeInput R D In)) = none := by
    rw [ShardState.step]
    split
    · rw [PbftNode.nodeStep]
      split
      · rfl
      · rw [handleInput, if_neg hst]
        rfl
    · rfl
  rw [proposeAt, leaderInputs, List.map_cons, runWith, if_pos trivial, hnone] at h
  cases h

variable (hmod : AtomicModule cfg leader number Same outer fits)

omit [DecidableEq R] [DecidableEq D] in
include hmod in
/-- A message from outside comes to the leader between two rounds. -/
theorem Idle.leading_hears {app : ℕ → App} {c : App}
    (h : Idle cfg alive leader view number Same app σ a) (ho : outer m = true)
    (hc : cfg.ohm.handleMessageOutsidePBFT a.app m = some c) :
    Idle cfg alive leader view number Same (Function.update app leader c) (heard σ leader c)
      { a with app := c } where
  between := h.between.hear c
  leading := Function.update_self ..
  replicas i hi hne := by
    rw [Function.update_of_ne hne]
    exact hmod.leading (h.replicas i hi hne) ho hc
  sent := h.sent

omit [DecidableEq R] [DecidableEq D] in
include hmod in
/-- A message from outside comes to a replica between two rounds. -/
theorem Idle.replica_hears {app : ℕ → App} {c : App}
    (h : Idle cfg alive leader view number Same app σ a) (ho : outer m = true)
    (hne : i ≠ leader) (hc : cfg.ohm.handleMessageOutsidePBFT (app i) m = some c) :
    Idle cfg alive leader view number Same (Function.update app i c) (heard σ i c) a where
  between := h.between.hear c
  leading := (Function.update_of_ne (Ne.symm hne) ..).trans h.leading
  replicas j hj hjl := by
    by_cases hji : j = i
    · subst hji
      rw [Function.update_self]
      exact hmod.replica (h.replicas j hj hjl) ho hc
    · rw [Function.update_of_ne hji]
      exact h.replicas j hj hjl
  sent := h.sent

omit [DecidableEq R] [DecidableEq D] in
include hmod in
/-- The round for a request that the leader can commit: all agree on it. -/
theorem AtomicModule.plan {start a₁ app' : App} {now n : ℕ} {r : R} {outs : List Out}
    {before : ℕ → App} (hprop : cfg.ihm.handleinPropose leader now start = some (r, a₁))
    (hcommit : cfg.ihm.handleinCommit true n a₁ r = .done app' outs)
    (hleader : before leader = a₁) (hbefore : ∀ i ∈ alive, i ≠ leader → Same start (before i))
    (rd : RoundPlan App R Out) (hrd : rd = .of cfg alive leader view n r before) :
    (Agrees cfg rd leader ∧ rd.after leader = app' ∧ rd.relays leader = outs) ∧
      ∀ i ∈ alive, i ≠ leader → Agrees cfg rd i ∧ Same app' (rd.after i) ∧ rd.relays i = [] := by
  subst hrd
  obtain ⟨haccept, hround⟩ := hmod.round hprop hcommit
  constructor
  · refine RoundPlan.of_agrees (hleader.symm ▸ haccept) ?_ fun hno => absurd rfl hno
    rw [hleader, decide_eq_true rfl]
    exact hcommit
  · intro i hi hne
    obtain ⟨haccept, b', hb', hsame⟩ := hround _ (hbefore i hi hne)
    have hdone : cfg.ihm.handleinCommit (decide (leader = i)) n (before i) r = .done b' [] := by
      rw [decide_eq_false (Ne.symm hne)]
      exact hb'
    obtain ⟨hagrees, hafter, hrelays⟩ := RoundPlan.of_agrees haccept hdone fun _ => rfl
    exact ⟨hagrees, hafter.symm ▸ hsame, hrelays⟩

include hmod in
/-- **A proposal**: the round begins, and is over in the view of the shard as one state. -/
theorem Idle.proposes {app : ℕ → App} {now : ℕ} (hcrew : Crew cfg alive leader view)
    (hheight : a.seqID = cfg.ihm.height a.app + 1)
    (h : Idle cfg alive leader view number Same app σ a)
    (ha : a.step cfg leader outer fits (.propose now : RoundEvent R D In) = some b) :
    b.seqID = cfg.ihm.height b.app + 1 ∧ ∃ s, proposeAt cfg leader now σ.1 = some s ∧
      ∃ rd, Busy cfg alive leader view number Same rd a.app a.sent (s, σ.2) b := by
  rw [AtomicShard.step] at ha
  obtain ⟨⟨r, a₁⟩, hprop, hb⟩ := Option.bind_eq_some_iff.mp ha
  dsimp only at hb
  split at hb
  · rename_i app' outs hcommit
    obtain rfl := Option.some.inj hb
    obtain ⟨hnum, hsame⟩ := hmod.lawful.propose hprop
    obtain ⟨-, hnext⟩ := hmod.lawful.commit hcommit
    rw [← hheight] at hnum
    refine ⟨by rw [hnext, hsame, ← hheight], ?_⟩
    have hleader : Function.update app leader a₁ leader = a₁ := Function.update_self ..
    have hbefore : ∀ i, i ≠ leader → Function.update app leader a₁ i = app i :=
      fun i hi => Function.update_of_ne hi ..
    have hin : ∀ i ∈ alive, i ≠ leader → Same a.app (Function.update app leader a₁ i) := by
      intro i hi hne
      rw [hbefore i hne]
      exact h.replicas i hi hne
    obtain ⟨⟨hagrees, hafter, hrelays⟩, hreplicas⟩ := hmod.plan hprop hcommit hleader hin
      (.of cfg alive leader view a.seqID r (Function.update app leader a₁)) rfl
    have hprop' : cfg.ihm.handleinPropose leader now (app leader) =
        some (r, Function.update app leader a₁ leader) := by
      rw [hleader, h.leading]
      exact hprop
    obtain ⟨s, hs, hinv⟩ : ∃ s, proposeAt cfg leader now σ.1 = some s ∧
        RoundInv cfg (.of cfg alive leader view a.seqID r (Function.update app leader a₁))
          (unusedFrom cfg number a.seqID) (relayedOut σ.1.history) (s, σ.2) :=
      Between.proposes h.between hcrew
        (fun i hi => if hne : i = leader then hne ▸ hagrees else (hreplicas i hi hne).1)
        (digest_mem_unusedFrom hmod.digest hnum) (fun i _ hne => (hbefore i hne).symm) hprop'
    exact ⟨s, hs, _, rfl, rfl, rfl, rfl, hnum, h.sent ▸ hinv, hafter, hagrees,
      fun i hi hne => ⟨hin i hi hne, (hreplicas i hi hne).2⟩,
      (hmod.round hprop hcommit).2, hrelays.symm ▸ rfl⟩
  · cases hb

/-! ### In a round -/

omit [DecidableEq R] [DecidableEq D] in
/-- A node that decides is not one that has decided. -/
theorem Deciding.not_decided {rd : RoundPlan App R Out} {p : PbftNode App R D}
    {got : RoundMsg → Bool} (h : Deciding cfg rd p i got) : ¬ DecidedRound rd p i :=
  fun hd => (Nat.lt_succ_self _).ne (h.sequenceID.symm.trans hd.sequenceID)

section Busy

variable {rd : RoundPlan App R Out} {start : App} {base : List Out}

theorem Busy.deliver {e : ℕ × Message R D} (hcrew : Crew cfg alive leader view)
    (h : Busy cfg alive leader view number Same rd start base σ a)
    (hd : deliverOnce cfg alive σ e = some τ) :
    Busy cfg alive leader view number Same rd start base τ a := by
  obtain ⟨rfl, rfl, rfl, hseq, hnum, hround, hafter, hagrees, hreplicas, hagreeing, hsent⟩ := h
  exact ⟨rfl, rfl, rfl, hseq, hnum, hround.step hcrew hd, hafter, hagrees, hreplicas, hagreeing,
    hsent⟩

include hmod in
/-- A message from outside comes to the leader in a round. -/
theorem Busy.leading_hears {c g : App}
    (h : Busy cfg alive leader view number Same rd start base σ a) (ho : outer m = true)
    (hfits : fits a.app m = true)
    (hc : cfg.ohm.handleMessageOutsidePBFT (σ.1.nodes leader).curChain m = some c)
    (hg : cfg.ohm.handleMessageOutsidePBFT a.app m = some g) :
    ∃ rd', Busy cfg alive leader view number Same rd' start base (heard σ leader c)
      { a with app := g } := by
  obtain ⟨rfl, rfl, rfl, hseq, hnum, hround, hafter, hagrees, hreplicas, hagreeing, hsent⟩ := h
  obtain ⟨cb, hcb⟩ := hmod.handles (rd.before rd.leader) m ho
  have hcommit := hagrees.committed
  rw [decide_eq_true rfl, hafter] at hcommit
  obtain ⟨g', hg', haccepted, hcommitted⟩ :=
    hmod.pending hagrees.accepted hcommit ho hfits hcb
  obtain rfl := Option.some.inj (hg'.symm.trans hg)
  have hagrees' : Agrees cfg (rd.hear rd.leader cb g') rd.leader := by
    refine ⟨RoundPlan.hear_before.symm ▸ haccepted, ?_, fun hno => absurd rfl hno⟩
    rw [RoundPlan.hear_before, RoundPlan.hear_after]
    exact (congrArg (cfg.ihm.handleinCommit · rd.seqID cb rd.request) (decide_eq_true rfl)).trans
      hcommitted
  refine ⟨rd.hear rd.leader cb g', rfl, rfl, rfl, hseq, hnum, hround.hear (fun hd => ⟨hagrees', ?_⟩)
    (fun hd => ?_), RoundPlan.hear_after, hagrees', fun i hi hne => ?_, fun b hb => ?_, hsent⟩
  · rw [hd.curChain, hcb] at hc
    exact (Option.some.inj hc).symm
  · rw [hd.curChain, hafter, hg] at hc
    exact (Option.some.inj hc).symm
  · rw [RoundPlan.hear_before_other hne, RoundPlan.hear_after_other hne]
    obtain ⟨hbefore, hsame, hrelays⟩ := hreplicas i hi hne
    exact ⟨hbefore, hmod.leading hsame ho hg, hrelays⟩
  · obtain ⟨haccept, b', hb', hsame⟩ := hagreeing b hb
    exact ⟨haccept, b', hb', hmod.leading hsame ho hg⟩

include hmod in
/-- A message from outside comes to a replica in a round. -/
theorem Busy.replica_hears {c : App}
    (h : Busy cfg alive leader view number Same rd start base σ a) (ho : outer m = true)
    (hi : i ∈ alive) (hne : i ≠ leader)
    (hc : cfg.ohm.handleMessageOutsidePBFT (σ.1.nodes i).curChain m = some c) :
    ∃ rd', Busy cfg alive leader view number Same rd' start base (heard σ i c) a := by
  obtain ⟨rfl, rfl, rfl, hseq, hnum, hround, hafter, hagrees, hreplicas, hagreeing, hsent⟩ := h
  obtain ⟨hbefore, hsame, hrelays⟩ := hreplicas i hi hne
  obtain ⟨cb, hcb⟩ := hmod.handles (rd.before i) m ho
  have hsameb := hmod.replica hbefore ho hcb
  obtain ⟨haccepted, b', hb', hsame'⟩ := hagreeing cb hsameb
  -- a replica that has decided takes the message on top of the new block
  obtain ⟨g, hsameg, hdeciding, hdecided⟩ : ∃ g, Same a.app g ∧
      (¬ DecidedRound rd (σ.1.nodes i) i → g = b') ∧ (DecidedRound rd (σ.1.nodes i) i → c = g) := by
    by_cases hd : DecidedRound rd (σ.1.nodes i) i
    · exact ⟨c, hmod.replica hsame ho (hd.curChain ▸ hc), fun hno => absurd hd hno, fun _ => rfl⟩
    · exact ⟨b', hsame', fun _ => rfl, fun hno => absurd hno hd⟩
  refine ⟨rd.hear i cb g, rfl, rfl, rfl, hseq, hnum, hround.hear (fun hd => ⟨?_, ?_⟩) hdecided,
    (RoundPlan.hear_after_other (Ne.symm hne)).trans hafter, hagrees.hear_other (Ne.symm hne),
    fun j hj hjl => ?_, hagreeing, hsent⟩
  · refine ⟨RoundPlan.hear_before.symm ▸ haccepted, ?_, fun _ => hrelays⟩
    rw [RoundPlan.hear_before, RoundPlan.hear_after, hdeciding hd.not_decided]
    have hreplica : decide ((rd.hear i cb b').leader = i) = false := decide_eq_false (Ne.symm hne)
    have hnothing : (rd.hear i cb b').relays i = [] := hrelays
    rw [hreplica, hnothing]
    exact hb'
  · rw [hd.curChain, hcb] at hc
    exact (Option.some.inj hc).symm
  · by_cases hji : j = i
    · subst hji
      rw [RoundPlan.hear_before, RoundPlan.hear_after]
      exact ⟨hsameb, hsameg, hrelays⟩
    · rw [RoundPlan.hear_before_other hji, RoundPlan.hear_after_other hji]
      exact hreplicas j hj hjl

/-- **The end of a round**: where all have committed, the shard is between rounds. -/
theorem Busy.idle (h : Busy cfg alive leader view number Same rd start base σ a)
    (hcrew : Crew cfg alive leader view)
    (hdecided : ∀ i ∈ alive, DecidedRound rd (σ.1.nodes i) i) :
    Idle cfg alive leader view number Same rd.after σ a := by
  obtain ⟨rfl, rfl, rfl, hseq, hnum, hround, hafter, hagrees, hreplicas, hagreeing, hsent⟩ := h
  have hbetween := hround.between hdecided
  refine ⟨?_, hafter, fun i hi hne => (hreplicas i hi hne).2.1, ?_⟩
  · rw [hseq]
    exact { hbetween with
      unused := fun i hi d hd => hbetween.unused i hi d (unusedFrom_succ_subset hnum hd) }
  · rcases hround.relayed with ⟨hold, -⟩ | ⟨-, hrelayed⟩
    · have hnew := (hdecided _ hcrew.leader).sequenceID
      omega
    · rw [hrelayed, hsent]

end Busy

/-! ### Runs -/

include hmod in
/-- **The simulation**: each step of the nodes is that of the shard as one state. -/
theorem Related.step {e : RoundEvent R D In} (hcrew : Crew cfg alive leader view)
    (h : Related cfg alive leader view number Same σ a)
    (hσ : roundStep cfg alive leader σ e = some τ)
    (ha : a.step cfg leader outer fits e = some b) :
    Related cfg alive leader view number Same τ b := by
  cases e with
  | deliver i msg =>
    obtain rfl := Option.some.inj ha
    refine ⟨h.height, ?_⟩
    rcases h.phase with ⟨app, hidle⟩ | ⟨rd, start, base, hbusy⟩
    · obtain ⟨hbetween, hsame⟩ := hidle.between.deliver hσ
      exact .inl ⟨app, hbetween, hidle.leading, hidle.replicas, hsame ▸ hidle.sent⟩
    · exact .inr ⟨rd, start, base, hbusy.deliver hcrew hσ⟩
  | outside i m =>
    rw [AtomicShard.step] at ha
    split at ha
    · rename_i ho
      obtain ⟨c, hc⟩ := hmod.handles (σ.1.nodes i).curChain m ho
      obtain ⟨hi, rfl⟩ := roundStep_outside hc hσ
      split at ha
      · rename_i hlead
        subst hlead
        split at ha
        · rename_i hfits
          obtain ⟨g, hg, rfl⟩ := Option.map_eq_some_iff.mp ha
          refine ⟨h.height.trans (congrArg (· + 1) (hmod.lawful.outside hg).symm), ?_⟩
          rcases h.phase with ⟨app, hidle⟩ | ⟨rd, start, base, hbusy⟩
          · have hcur := (hidle.between.ready i hi).curChain.trans hidle.leading
            obtain rfl := Option.some.inj (hc.symm.trans (hcur ▸ hg))
            exact .inl ⟨_, hidle.leading_hears hmod ho hg⟩
          · obtain ⟨rd', hbusy'⟩ := hbusy.leading_hears hmod ho hfits hc hg
            exact .inr ⟨rd', start, base, hbusy'⟩
        · cases ha
      · rename_i hne
        obtain rfl := Option.some.inj ha
        refine ⟨h.height, ?_⟩
        rcases h.phase with ⟨app, hidle⟩ | ⟨rd, start, base, hbusy⟩
        · rw [(hidle.between.ready i hi).curChain] at hc
          exact .inl ⟨_, hidle.replica_hears hmod ho hne hc⟩
        · obtain ⟨rd', hbusy'⟩ := hbusy.replica_hears hmod ho hi hne hc
          exact .inr ⟨rd', start, base, hbusy'⟩
    · cases ha
  | propose now =>
    rw [roundStep] at hσ
    split at hσ
    · rename_i hall
      obtain ⟨s, hs, rfl⟩ := Option.map_eq_some_iff.mp hσ
      -- the leader has committed what it proposed before, and so have all
      obtain ⟨app, hidle⟩ : ∃ app, Idle cfg alive leader view number Same app σ a := by
        rcases h.phase with hidle | ⟨rd, start, base, hbusy⟩
        · exact hidle
        · refine ⟨_, hbusy.idle hcrew ?_⟩
          obtain ⟨rfl, rfl, rfl, hseq, hnum, hround, -⟩ := hbusy
          have hleader : DecidedRound rd (σ.1.nodes rd.leader) rd.leader := by
            rcases hround.node _ hcrew.leader with ⟨hd, -, -⟩ | ⟨hd, -⟩
            · have hstage := proposeAt_stage hs
              rw [hd.pbftStage, if_pos rfl] at hstage
              omega
            · exact hd
          intro i hi
          rcases hround.node i hi with ⟨hd, -, -⟩ | ⟨hd, -⟩
          · have hold := hd.sequenceID
            rw [hall i hi, hleader.sequenceID] at hold
            omega
          · exact hd
      obtain ⟨hheight, s', hs', rd, hbusy⟩ := hidle.proposes hmod hcrew h.height ha
      obtain rfl := Option.some.inj (hs.symm.trans hs')
      exact ⟨hheight, .inr ⟨rd, _, _, hbusy⟩⟩
    · cases hσ

/-- **What is seen of a shard where nothing more can be delivered**: its nodes have ended in
the one state. -/
theorem Related.idle (hcrew : Crew cfg alive leader view)
    (h : Related cfg alive leader view number Same σ a)
    (hstuck : ∀ e, deliverOnce cfg alive σ e = none) :
    ∃ app, Idle cfg alive leader view number Same app σ a := by
  rcases h.phase with hidle | ⟨rd, start, base, hbusy⟩
  · exact hidle
  · refine ⟨_, hbusy.idle hcrew ?_⟩
    obtain ⟨rfl, rfl, rfl, -, -, hround, -⟩ := hbusy
    exact hround.decided hcrew hstuck

/-- The messages that were sent in a shard. -/
def sentMessages (s : ShardState App R D Out) : Finset (Message R D) :=
  (s.history.filterMap fun e => e.2.sent).toFinset

theorem mem_sentMessages {s : ShardState App R D Out} {k : ℕ} {d : Dest} {m : Message R D}
    (h : (k, .send d m) ∈ s.history) : m ∈ sentMessages s :=
  List.mem_toFinset.mpr (List.mem_filterMap.mpr ⟨_, h, rfl⟩)

/-- **Deliveries end** in every shard. -/
theorem Related.ends (hcrew : Crew cfg alive leader view)
    (h : Related cfg alive leader view number Same σ a) :
    ∃ es τ, runWith (deliverOnce cfg alive) (fun _ _ => True) σ es = some τ ∧
      ∀ e, deliverOnce cfg alive τ e = none := by
  rcases h.phase with ⟨app, hidle⟩ | ⟨rd, start, base, hbusy⟩
  · -- the history stays
    obtain ⟨es, τ, hrun, hstuck⟩ : ∃ es τ,
        runWith (deliverOnce cfg alive) (fun _ _ => True) σ es = some τ ∧
          ∀ e, True → deliverOnce cfg alive τ e = none := by
      refine exists_runWith_stuck (fun τ => Between cfg alive view a.seqID app
        (unusedFrom cfg number a.seqID) τ ∧ τ.1 = σ.1) (left alive (sentMessages σ.1))
        (fun ρ e ρ' hρ _ hd => ?_) ⟨hidle.between, rfl⟩
      obtain ⟨hbetween, hsame⟩ := hρ.1.deliver hd
      refine ⟨⟨hbetween, hsame.trans hρ.2⟩, left_lt (fun k d m hk => ?_) hd⟩
      exact mem_sentMessages (hρ.2 ▸ hk)
    exact ⟨es, τ, hrun, fun e => hstuck e trivial⟩
  · obtain ⟨rfl, rfl, rfl, -, -, hround, -⟩ := hbusy
    exact (hround.ends hcrew).2

/-- A shard just started. -/
theorem Related.start {apps : ℕ → App}
    (hheight : ∀ i ∈ alive, cfg.ihm.height (apps i) = cfg.ihm.height (apps leader))
    (hsame : ∀ i ∈ alive, i ≠ leader → Same (apps leader) (apps i)) :
    Related cfg alive leader 0 number Same (ShardState.new cfg.ihm.height apps, [])
      ⟨apps leader, cfg.ihm.height (apps leader) + 1, []⟩ := by
  have hnew : Between cfg alive 0 (cfg.ihm.height (apps leader) + 1) apps Set.univ
      (ShardState.new cfg.ihm.height apps, ([] : List (ℕ × Message R D))) := Between.new hheight
  exact ⟨rfl, .inl ⟨apps, { hnew with unused := fun i hi d _ => hnew.unused i hi d trivial }, rfl,
    hsame, rfl⟩⟩

/-- **Rounds are atomic**: whatever has happened in a shard, and whatever order deliveries
then take, they end in the one state that the rounds and the messages to the leader have
led to. -/
theorem AtomicModule.rounds_atomic (hmod : AtomicModule cfg leader number Same outer fits)
    (hcrew : Crew cfg alive leader 0) {apps : ℕ → App}
    (hheight : ∀ i ∈ alive, cfg.ihm.height (apps i) = cfg.ihm.height (apps leader))
    (hsame : ∀ i ∈ alive, i ≠ leader → Same (apps leader) (apps i))
    {es : List (RoundEvent R D In)}
    (hσ : runWith (roundStep cfg alive leader) (fun _ _ => True)
      (ShardState.new cfg.ihm.height apps, []) es = some σ)
    (ha : runWith (AtomicShard.step cfg leader outer fits) (fun _ _ => True)
      ⟨apps leader, cfg.ihm.height (apps leader) + 1, []⟩ es = some a) :
    (∃ ds τ, runWith (deliverOnce cfg alive) (fun _ _ => True) σ ds = some τ ∧
      ∀ e, deliverOnce cfg alive τ e = none) ∧
    ∀ ds τ, runWith (deliverOnce cfg alive) (fun _ _ => True) σ ds = some τ →
      (∀ e, deliverOnce cfg alive τ e = none) →
        ∃ app, Idle cfg alive leader 0 number Same app τ a := by
  have h : Related cfg alive leader 0 number Same σ a :=
    runWith_related _ (fun _ _ _ _ _ hr hσ ha => hr.step hmod hcrew hσ ha)
      (.start hheight hsame) hσ ha
  refine ⟨h.ends hcrew, fun ds τ hds hstuck => ?_⟩
  have hτ : Related cfg alive leader 0 number Same τ a := by
    refine runWith_invariant (fun τ => Related cfg alive leader 0 number Same τ a)
      (fun ρ e ρ' hρ _ hd => ?_) h hds
    exact hρ.step hmod hcrew (e := .deliver e.1 e.2) hd rfl
  exact hτ.idle hcrew hstuck

end

end BlockEmulator
