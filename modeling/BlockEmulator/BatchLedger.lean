import Mathlib.Data.List.Basic

/-!
# The ledger of a batcher

A batcher collects what it receives and, from time to time, consumes all it has collected.
Its ledger says what was received, what each consumption took and what waits; that nothing is
lost, nothing is taken twice and the order stays is part of the ledger.

* `BatchLedger` — **received is consumed followed by pending**.
* `collect`, `consume` — the two things a batcher does.
-/

universe u

/-- The ledger of a batcher. -/
structure BatchLedger (α : Type u) where
  /-- what was received, in its order -/
  received : List α
  /-- what the consumptions took, in their order -/
  consumed : List (List α)
  /-- what waits -/
  pending : List α
  /-- nothing is lost, repeated or moved -/
  balanced : received = consumed.flatten ++ pending

namespace BatchLedger

variable {α : Type u}

/-- Nothing was received. -/
def empty : BatchLedger α := ⟨[], [], [], rfl⟩

/-- `xs` is received and waits. -/
def collect (l : BatchLedger α) (xs : List α) : BatchLedger α where
  received := l.received ++ xs
  consumed := l.consumed
  pending := l.pending ++ xs
  balanced := by rw [l.balanced, List.append_assoc]

/-- All that waits is consumed. -/
def consume (l : BatchLedger α) : BatchLedger α where
  received := l.received
  consumed := l.consumed ++ [l.pending]
  pending := []
  balanced := by rw [l.balanced, List.flatten_concat, List.append_nil]

end BatchLedger
