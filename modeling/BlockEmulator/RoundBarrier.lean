import Mathlib.Data.Finset.Basic
import Mathlib.Logic.Function.Basic

/-!
# A barrier that goes round after round

Some parties go through rounds together. In a round a party **announces** that it is
ready, by a signal to each other party; it **passes** once it has heard all others, and
sends goods to each of them; it **finishes** once it has got the goods of all others, and
forgets what it has heard and got. Signals and goods take any time to arrive, and what is
received is remembered as a set: a second signal of one party looks like the first.

`Lawful` is what holds over all runs: no party is more than one signal, or one delivery
of goods, ahead of another. So what a party hears is of its own round
(`Lawful.of_heard`), and so is what it gets (`Lawful.of_got`).
-/

namespace RoundBarrier

universe u

variable {ι : Type u} [DecidableEq ι]

/-- Where a party is in its round. -/
inductive Phase where
  /-- the round has not begun -/
  | idle
  /-- it has announced that it is ready -/
  | announced
  /-- it has passed the barrier -/
  | passed
  deriving DecidableEq

/-- The signals of a round that were sent. -/
def Phase.signalled : Phase → ℕ
  | .idle => 0
  | .announced => 1
  | .passed => 1

/-- The goods of a round that were sent. -/
def Phase.delivered : Phase → ℕ
  | .idle => 0
  | .announced => 0
  | .passed => 1

@[simp] theorem Phase.signalled_idle : Phase.idle.signalled = 0 := rfl
@[simp] theorem Phase.signalled_announced : Phase.announced.signalled = 1 := rfl
@[simp] theorem Phase.signalled_passed : Phase.passed.signalled = 1 := rfl
@[simp] theorem Phase.delivered_idle : Phase.idle.delivered = 0 := rfl
@[simp] theorem Phase.delivered_announced : Phase.announced.delivered = 0 := rfl
@[simp] theorem Phase.delivered_passed : Phase.passed.delivered = 1 := rfl

theorem Phase.signalled_le (p : Phase) : p.signalled ≤ 1 := by
  cases p with
  | idle => simp
  | announced => simp
  | passed => simp

theorem Phase.signalled_pos {p : Phase} : 0 < p.signalled ↔ p ≠ .idle := by
  cases p with
  | idle => simp
  | announced => simp
  | passed => simp

theorem Phase.delivered_eq_zero {p : Phase} (h : p ≠ .passed) : p.delivered = 0 := by
  cases p with
  | idle => rfl
  | announced => rfl
  | passed => exact absurd rfl h

/-- The state of all parties, and what is under way. -/
@[ext]
structure State (ι : Type u) where
  /-- where each party is in its round -/
  phase : ι → Phase
  /-- the number of rounds a party has finished -/
  rounds : ι → ℕ
  /-- from whom a party has heard in this round -/
  heard : ι → Finset ι
  /-- the signals under way, from one party to another -/
  signals : ι → ι → ℕ
  /-- whose goods a party has got in this round -/
  got : ι → Finset ι
  /-- the goods under way, from one party to another -/
  goods : ι → ι → ℕ

/-- What can happen. -/
inductive Event (ι : Type u) where
  /-- a party announces that it is ready -/
  | announce (j : ι)
  /-- a signal from one party arrives at another -/
  | signal (j k : ι)
  /-- a party passes the barrier -/
  | pass (k : ι)
  /-- goods from one party arrive at another -/
  | good (k j : ι)
  /-- a party finishes the round -/
  | finish (j : ι)

namespace State

/-- One more from a party to each other one. -/
def broadcast (parties : Finset ι) (under : ι → ι → ℕ) (i : ι) : ι → ι → ℕ :=
  fun a b => under a b + if a = i ∧ b ∈ parties ∧ b ≠ i then 1 else 0

/-- One less from one party to another. -/
def arrive (under : ι → ι → ℕ) (i k : ι) : ι → ι → ℕ :=
  fun a b => if a = i ∧ b = k then under a b - 1 else under a b

/-- One step. -/
def step (parties : Finset ι) (s : State ι) : Event ι → Option (State ι)
  | .announce j =>
    if j ∈ parties ∧ s.phase j = .idle then
      some { s with
        phase := Function.update s.phase j .announced
        heard := Function.update s.heard j (insert j (s.heard j))
        signals := broadcast parties s.signals j }
    else none
  | .signal j k =>
    if 0 < s.signals j k then
      some { s with
        heard := Function.update s.heard k (insert j (s.heard k))
        signals := arrive s.signals j k }
    else none
  | .pass k =>
    if k ∈ parties ∧ s.phase k = .announced ∧ ∀ j ∈ parties, j ∈ s.heard k then
      some { s with
        phase := Function.update s.phase k .passed
        goods := broadcast parties s.goods k }
    else none
  | .good k j =>
    if 0 < s.goods k j then
      some { s with
        got := Function.update s.got j (insert k (s.got j))
        goods := arrive s.goods k j }
    else none
  | .finish j =>
    if j ∈ parties ∧ s.phase j = .passed ∧ ∀ k ∈ parties, k ≠ j → k ∈ s.got j then
      some { s with
        phase := Function.update s.phase j .idle
        rounds := Function.update s.rounds j (s.rounds j + 1)
        heard := Function.update s.heard j ∅
        got := Function.update s.got j ∅ }
    else none

/-- The signals of `j` that `k` has had, or may have: those of the rounds it has passed,
one it has heard since, and those under way. -/
def consumed (s : State ι) (j k : ι) : ℕ :=
  s.rounds k + (s.phase k).delivered +
    (if s.phase k ≠ .passed ∧ j ∈ s.heard k then 1 else 0) + s.signals j k

/-- The goods of `k` that `j` has had, or may have. -/
def received (s : State ι) (k j : ι) : ℕ :=
  s.rounds j + (if k ∈ s.got j then 1 else 0) + s.goods k j

end State

open State

/-- What holds over all runs: a party uses one signal of each other party for every time
it passes, and the goods of each other party for every round it finishes. -/
structure Lawful (parties : Finset ι) (s : State ι) : Prop where
  /-- no more signals are used than were sent -/
  signals : ∀ j ∈ parties, ∀ k ∈ parties, j ≠ k →
    s.consumed j k ≤ s.rounds j + (s.phase j).signalled
  /-- no more goods are used than were sent -/
  goods : ∀ k ∈ parties, ∀ j ∈ parties, k ≠ j →
    s.received k j ≤ s.rounds k + (s.phase k).delivered

namespace Lawful

variable {parties : Finset ι} {s t : State ι} {j k : ι}

/-- **What was heard is of this round**: the other party has announced it, has finished as
many rounds, and no signal of it is under way. -/
theorem of_heard (hs : Lawful parties s) (hj : j ∈ parties) (hk : k ∈ parties) (hne : j ≠ k)
    (hphase : s.phase k ≠ .passed) (hheard : j ∈ s.heard k) :
    s.rounds j = s.rounds k ∧ s.phase j ≠ .idle ∧ s.signals j k = 0 := by
  have hsignals := hs.signals j hj k hk hne
  have hgoods := hs.goods k hk j hj hne.symm
  rw [consumed, if_pos ⟨hphase, hheard⟩, Phase.delivered_eq_zero hphase] at hsignals
  rw [received, Phase.delivered_eq_zero hphase] at hgoods
  -- the two laws bound each other's rounds, so they are equal, and both laws are tight
  have hle := (s.phase j).signalled_le
  refine ⟨by omega, Phase.signalled_pos.mp (by omega), by omega⟩

/-- A party that has not announced has no signal under way, and nobody has heard it in this
round. -/
theorem of_idle (hs : Lawful parties s) (hj : j ∈ parties) (hk : k ∈ parties) (hne : j ≠ k)
    (hphase : s.phase j = .idle) :
    s.signals j k = 0 ∧ (s.phase k ≠ .passed → j ∉ s.heard k) := by
  have hsignals := hs.signals j hj k hk hne
  have hgoods := hs.goods k hk j hj hne.symm
  rw [consumed, hphase, Phase.signalled_idle] at hsignals
  rw [received] at hgoods
  refine ⟨by omega, fun hpassed hheard => ?_⟩
  rw [if_pos ⟨hpassed, hheard⟩] at hsignals
  omega

/-- **What was got is of this round**: the other party has passed once more than this one
has finished, and no other goods of it are under way. -/
theorem of_got (hs : Lawful parties s) (hj : j ∈ parties) (hk : k ∈ parties) (hne : j ≠ k)
    (hgot : k ∈ s.got j) :
    s.rounds k + (s.phase k).delivered = s.rounds j + 1 ∧ s.goods k j = 0 := by
  have hsignals := hs.signals j hj k hk hne
  have hgoods := hs.goods k hk j hj hne.symm
  rw [consumed] at hsignals
  rw [received, if_pos hgot] at hgoods
  have hle := (s.phase j).signalled_le
  exact ⟨by omega, by omega⟩

/-- Goods that are under way are the only ones, and of this round. -/
theorem of_goods (hs : Lawful parties s) (hj : j ∈ parties) (hk : k ∈ parties) (hne : j ≠ k)
    (hgoods : 0 < s.goods k j) :
    s.rounds k + (s.phase k).delivered = s.rounds j + 1 ∧ s.goods k j = 1 ∧ k ∉ s.got j := by
  have hsignals := hs.signals j hj k hk hne
  have hlaw := hs.goods k hk j hj hne.symm
  rw [consumed] at hsignals
  rw [received] at hlaw
  have hle := (s.phase j).signalled_le
  refine ⟨by omega, by omega, fun hgot => ?_⟩
  rw [if_pos hgot] at hlaw
  omega

theorem start (parties : Finset ι) :
    Lawful parties ⟨fun _ => .idle, fun _ => 0, fun _ => ∅, fun _ _ => 0, fun _ => ∅,
      fun _ _ => 0⟩ := by
  constructor
  · simp [consumed]
  · simp [received]

/-- **Every step keeps the laws.** -/
theorem step {e : Event ι} (hs : Lawful parties s) (h : s.step parties e = some t) :
    Lawful parties t := by
  cases e with
  | announce i =>
    obtain ⟨hi, h⟩ := Option.ite_none_right_eq_some.mp h
    obtain rfl := Option.some.inj h
    refine ⟨fun j hj k hk hne => ?_, fun k hk j hj hne => ?_⟩
    · -- its signals are under way, and it has sent one more
      have hlaw := hs.signals j hj k hk hne
      simp only [consumed, broadcast, Function.update_apply] at hlaw ⊢
      grind [Phase.signalled, Phase.delivered]
    · have hlaw := hs.goods k hk j hj hne
      simp only [received, Function.update_apply] at hlaw ⊢
      grind [Phase.delivered]
  | signal i l =>
    obtain ⟨hi, h⟩ := Option.ite_none_right_eq_some.mp h
    obtain rfl := Option.some.inj h
    refine ⟨fun j hj k hk hne => ?_, fun k hk j hj hne => hs.goods k hk j hj hne⟩
    have hlaw := hs.signals j hj k hk hne
    simp only [consumed, arrive, Function.update_apply] at hlaw ⊢
    grind
  | pass i =>
    obtain ⟨hi, h⟩ := Option.ite_none_right_eq_some.mp h
    obtain rfl := Option.some.inj h
    refine ⟨fun j hj k hk hne => ?_, fun k hk j hj hne => ?_⟩
    · have hlaw := hs.signals j hj k hk hne
      simp only [consumed, Function.update_apply] at hlaw ⊢
      grind [Phase.signalled, Phase.delivered]
    · have hlaw := hs.goods k hk j hj hne
      simp only [received, broadcast, Function.update_apply] at hlaw ⊢
      grind [Phase.delivered]
  | good l i =>
    obtain ⟨hi, h⟩ := Option.ite_none_right_eq_some.mp h
    obtain rfl := Option.some.inj h
    refine ⟨fun j hj k hk hne => hs.signals j hj k hk hne, fun k hk j hj hne => ?_⟩
    have hlaw := hs.goods k hk j hj hne
    simp only [received, arrive, Function.update_apply] at hlaw ⊢
    grind
  | finish i =>
    obtain ⟨hi, h⟩ := Option.ite_none_right_eq_some.mp h
    obtain rfl := Option.some.inj h
    refine ⟨fun j hj k hk hne => ?_, fun k hk j hj hne => ?_⟩
    · have hlaw := hs.signals j hj k hk hne
      simp only [consumed, Function.update_apply] at hlaw ⊢
      grind [Phase.signalled, Phase.delivered]
    · have hlaw := hs.goods k hk j hj hne
      simp only [received, Function.update_apply] at hlaw ⊢
      grind [Phase.delivered]

end Lawful

end RoundBarrier
