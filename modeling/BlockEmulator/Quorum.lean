import Mathlib.Data.Finset.Card
import Mathlib.Algebra.Order.Group.Nat

/-!
# Quorums

The counting argument behind quorum protocols, over any type of members: two
quorums that are large enough share a member outside the faulty set, so a voting
record in which every honest member votes for one value per slot decides at most
one value per slot.

A voting record is a relation: which member has voted for which value in which
slot. A value is decided when a quorum has voted for it.
-/

namespace Quorum

universe u v w

variable {α : Type u}

/-- A quorum larger than the faulty set has a member that is not faulty. -/
theorem exists_honest {faulty Q : Finset α} (h : faulty.card < Q.card) :
    ∃ m ∈ Q, m ∉ faulty :=
  Finset.exists_mem_notMem_of_card_lt_card h

/-- Two quorums that together outnumber the members and the faulty set share a
member that is not faulty. -/
theorem exists_honest_common [DecidableEq α] {members faulty Q R : Finset α}
    (hQ : Q ⊆ members) (hR : R ⊆ members)
    (h : members.card + faulty.card < Q.card + R.card) :
    ∃ m ∈ Q, m ∈ R ∧ m ∉ faulty := by
  have hunion : (Q ∪ R).card ≤ members.card :=
    Finset.card_le_card (Finset.union_subset hQ hR)
  have hsum : (Q ∪ R).card + (Q ∩ R).card = Q.card + R.card :=
    Finset.card_union_add_card_inter Q R
  have hlt : faulty.card < (Q ∩ R).card := by omega
  obtain ⟨m, hm, hmf⟩ := Finset.exists_mem_notMem_of_card_lt_card hlt
  exact ⟨m, (Finset.mem_inter.mp hm).1, (Finset.mem_inter.mp hm).2, hmf⟩

/-! ## Voting records -/

section Votes

variable {Slot : Type v} {Value : Type w} (V : α → Slot → Value → Prop)
  (members faulty : Finset α) (q : ℕ)

/-- A quorum of `q` members stands behind a statement about members; the faulty
ones among them are taken at their word. -/
def Backed (p : α → Prop) : Prop :=
  ∃ Q : Finset α, Q ⊆ members ∧ q ≤ Q.card ∧ ∀ m ∈ Q, m ∉ faulty → p m

/-- A value is decided in a slot when a quorum has voted for it. -/
def Decided (s : Slot) (v : Value) : Prop :=
  Backed members faulty q fun m => V m s v

/-- Every honest member votes for at most one value per slot. -/
def VotesOnce : Prop :=
  ∀ m ∉ faulty, ∀ s v w, V m s v → V m s w → v = w

/-- All honest members that vote in a slot vote for the same value. -/
def VotesAlike : Prop :=
  ∀ m ∉ faulty, ∀ n ∉ faulty, ∀ s v w, V m s v → V n s w → v = w

variable {V members faulty q}

/-- More votes back as much. -/
theorem Backed.mono {p p' : α → Prop} (h : Backed members faulty q p)
    (hp : ∀ m, p m → p' m) : Backed members faulty q p' := by
  obtain ⟨Q, hQ, hcard, hall⟩ := h
  exact ⟨Q, hQ, hcard, fun m hm hmf => hp m (hall m hm hmf)⟩

/-- **At most one value is decided per slot**, when honest members vote once and
quorums intersect in an honest member. Where quorums may fail to intersect, honest
members have to vote alike. -/
theorem decided_unique [DecidableEq α] (hq : faulty.card < q) (honce : VotesOnce V faulty)
    (halike : 2 * q ≤ members.card + faulty.card → VotesAlike V faulty)
    {s : Slot} {v w : Value} (hv : Decided V members faulty q s v)
    (hw : Decided V members faulty q s w) : v = w := by
  obtain ⟨Q, hQ, hQc, hQv⟩ := hv
  obtain ⟨R, hR, hRc, hRw⟩ := hw
  by_cases hinter : members.card + faulty.card < 2 * q
  · have hcard : members.card + faulty.card < Q.card + R.card := by omega
    obtain ⟨m, hmQ, hmR, hmf⟩ := exists_honest_common hQ hR hcard
    exact honce m hmf s v w (hQv m hmQ hmf) (hRw m hmR hmf)
  · obtain ⟨m, hmQ, hmf⟩ := exists_honest (lt_of_lt_of_le hq hQc)
    obtain ⟨n, hnR, hnf⟩ := exists_honest (lt_of_lt_of_le hq hRc)
    exact halike (by omega) m hmf n hnf s v w (hQv m hmQ hmf) (hRw n hnR hnf)

end Votes

end Quorum
