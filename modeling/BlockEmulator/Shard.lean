import BlockEmulator.StepSystem
import BlockEmulator.Transitions

/-!
# A shard of consensus nodes

The nodes of one shard and everything they have ever sent. A message that was sent
to a node may reach it at any time, any number of times, or never; this is all the
network promises. Nodes of the set `byz` do not run the program: they send what
they like, except votes that carry the identity of a node outside the set.

`step_node` is the inversion of a step: one node made one of its transitions, and
what it sent was added to the history.
-/

namespace BlockEmulator

open PbftNode

variable {App R D In Out : Type}

/-- The configuration of one node of a shard. -/
def PbftConfig.at (cfg : PbftConfig App R D In Out) (i : ℕ) : PbftConfig App R D In Out :=
  { cfg with nodeID := i }

@[simp] theorem PbftConfig.at_nodeID (cfg : PbftConfig App R D In Out) (i : ℕ) :
    (cfg.at i).nodeID = i := rfl

@[simp] theorem PbftConfig.at_quorum (cfg : PbftConfig App R D In Out) (i : ℕ) :
    (cfg.at i).quorum = cfg.quorum := rfl

@[simp] theorem PbftConfig.at_ihm (cfg : PbftConfig App R D In Out) (i : ℕ) :
    (cfg.at i).ihm = cfg.ihm := rfl

@[simp] theorem PbftConfig.at_ohm (cfg : PbftConfig App R D In Out) (i : ℕ) :
    (cfg.at i).ohm = cfg.ohm := rfl

@[simp] theorem PbftConfig.at_getDigest (cfg : PbftConfig App R D In Out) (i : ℕ) :
    (cfg.at i).getDigest = cfg.getDigest := rfl

@[simp] theorem PbftConfig.at_nodeNums (cfg : PbftConfig App R D In Out) (i : ℕ) :
    (cfg.at i).nodeNums = cfg.nodeNums := rfl

/-- The state of a shard. -/
structure ShardState (App R D Out : Type) where
  /-- its nodes -/
  nodes : ℕ → PbftNode App R D
  /-- what they have done, the latest first -/
  history : List (ℕ × Output R D Out)

/-- What can happen in a shard. -/
inductive ShardAction (R D In : Type) where
  /-- an input at a node -/
  | node (i : ℕ) (input : NodeInput R D In)
  /-- a Byzantine node sends a message -/
  | forge (b : ℕ) (m : Message R D)
  deriving DecidableEq

/-- Whether an output is this message, to this address. -/
def Output.delivers [DecidableEq R] [DecidableEq D] (ip : String) (m : Message R D) :
    Output R D Out → Bool
  | .send d m' => d.reaches ip && decide (m' = m)
  | _ => false

/-- What Byzantine nodes can send: no vote of a node that is not one of them. -/
def Message.forgeable (byz : Finset ℕ) : Message R D → Bool
  | .prepare m => m.senderNode.all fun n => decide (n.nodeID ∈ byz)
  | .commit m => m.senderNode.all fun n => decide (n.nodeID ∈ byz)
  | _ => true

namespace ShardState

/-- A shard just started, over the chains of its nodes. -/
def new (height : App → ℕ) (apps : ℕ → App) : ShardState App R D Out :=
  ⟨fun i => PbftNode.new height (apps i), []⟩

variable [DecidableEq R] [DecidableEq D]

/-- A message was sent to an address. -/
def sentTo (s : ShardState App R D Out) (ip : String) (m : Message R D) : Bool :=
  s.history.any fun e => e.2.delivers ip m

/-- Whether an input can reach a node: messages must have been sent to it. -/
def arrives (s : ShardState App R D Out) (ip : String) : NodeInput R D In → Bool
  | .receive m => s.sentTo ip m
  | _ => true

variable (cfg : PbftConfig App R D In Out) (byz : Finset ℕ)

/-- One step of a shard. -/
def step (s : ShardState App R D Out) : ShardAction R D In → Option (ShardState App R D Out)
  | .node i input =>
    if i < cfg.nodeNums ∧ i ∉ byz ∧ s.arrives (cfg.ipOf i) input = true then
      -- what a node sends stays: it may arrive late, twice or never
      ((s.nodes i).nodeStep (cfg.at i) input).map fun r =>
        ⟨Function.update s.nodes i r.1, r.2.map (i, ·) ++ s.history⟩
    else none
  | .forge b m =>
    if b < cfg.nodeNums ∧ b ∈ byz ∧ m.forgeable byz = true then
      -- a Byzantine node sends anything that names no honest node as its sender
      some { s with history := (b, .send .all m) :: s.history }
    else none

/-! ## Inversion -/

variable {cfg byz} {s t : ShardState App R D Out}

/-- **A step of a node**: one transition, and its outputs in the history. -/
theorem step_node {i : ℕ} {input : NodeInput R D In}
    (h : s.step cfg byz (.node i input) = some t) :
    i < cfg.nodeNums ∧ i ∉ byz ∧ s.arrives (cfg.ipOf i) input = true ∧
      (s.nodes i).fault = none ∧
      ∃ p outs, Transition (cfg.at i) (s.nodes i) input p outs ∧
        t = ⟨Function.update s.nodes i p, outs.map (i, ·) ++ s.history⟩ := by
  rw [step] at h
  split at h
  · rename_i hg
    obtain ⟨⟨p, outs⟩, hr, rfl⟩ := Option.map_eq_some_iff.mp h
    obtain ⟨hf, htr⟩ := nodeStep_transition hr
    exact ⟨hg.1, hg.2.1, hg.2.2, hf, p, outs, htr, rfl⟩
  · cases h

/-- A step of a Byzantine node: a message it may send. -/
theorem step_forge {b : ℕ} {m : Message R D}
    (h : s.step cfg byz (.forge b m : ShardAction R D In) = some t) :
    b ∈ byz ∧ m.forgeable byz = true ∧
      t = { s with history := (b, .send .all m) :: s.history } := by
  rw [step] at h
  split at h
  · rename_i hg
    exact ⟨hg.2.1, hg.2.2, (Option.some.inj h).symm⟩
  · cases h

/-- A message that arrives was sent by somebody. -/
theorem arrives_receive {ip : String} {m : Message R D}
    (h : s.arrives ip (.receive m : NodeInput R D In) = true) :
    ∃ k d, (k, .send d m) ∈ s.history := by
  obtain ⟨⟨k, o⟩, he, hd⟩ := List.any_eq_true.mp h
  cases o with
  | send d m' =>
    simp only [Output.delivers, Bool.and_eq_true, decide_eq_true_eq] at hd
    obtain ⟨-, rfl⟩ := hd
    exact ⟨k, d, he⟩
  | relay o => cases hd
  | committed n d => cases hd

omit [DecidableEq R] [DecidableEq D] in
/-- What is in the history after a step was there before, or is an output. -/
theorem mem_history_node {i : ℕ} {p : PbftNode App R D} {outs : List (Output R D Out)}
    {e : ℕ × Output R D Out}
    (h : e ∈ (⟨Function.update s.nodes i p, outs.map (i, ·) ++ s.history⟩ :
      ShardState App R D Out).history) :
    e ∈ s.history ∨ e.1 = i ∧ e.2 ∈ outs := by
  rcases List.mem_append.mp h with h | h
  · obtain ⟨o, ho, rfl⟩ := List.mem_map.mp h
    exact .inr ⟨rfl, ho⟩
  · exact .inl h

/-- The history only grows. -/
theorem history_subset {a : ShardAction R D In} (h : s.step cfg byz a = some t) :
    s.history ⊆ t.history := by
  intro e he
  rcases a with ⟨i, input⟩ | ⟨b, m⟩
  · obtain ⟨-, -, -, -, p, outs, -, rfl⟩ := step_node h
    exact List.mem_append_right _ he
  · obtain ⟨-, -, rfl⟩ := step_forge h
    exact List.mem_cons_of_mem _ he

theorem history_subset_of_reaches {ok : ShardState App R D Out → ShardAction R D In → Prop}
    (h : StepSystem.Reaches (step cfg byz) ok s t) : s.history ⊆ t.history :=
  h.invariant (fun t => s.history ⊆ t.history) (List.Subset.refl _)
    fun _ _ _ hs _ h => List.Subset.trans hs (history_subset h)

end ShardState

end BlockEmulator
