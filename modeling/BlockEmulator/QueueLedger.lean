import Mathlib.Data.List.Basic
import Mathlib.Data.List.Perm.Basic
import Mathlib.Data.List.Range

/-!
# The account of a queue

A queue is joined at its tail or at its head, left from the front, and thinned in place.
The account numbers the entries as they come, so that two equal items stay apart, and
keeps where each of them is.

* `Balanced` — **nothing is lost or doubled, and what joined at the tail leaves in the
  order it came**; kept by each of the four ways to change a queue.
-/

namespace QueueLedger

variable {α : Type*}

/-- An entry of the queue: the item, its number, and the end it joined at. -/
structure Slot (α : Type*) where
  /-- the item -/
  item : α
  /-- how many entries there were before it -/
  stamp : ℕ
  /-- whether it joined at the tail -/
  tail : Bool
  deriving DecidableEq

/-- Where the entries are. -/
structure Ledger (α : Type*) where
  /-- all that ever joined -/
  added : List (Slot α)
  /-- what left from the front, in the order it left -/
  packed : List (Slot α)
  /-- what was taken out from within -/
  removed : List (Slot α)
  /-- what is still queued -/
  queue : List (Slot α)

/-- Entries for new items, numbered from `n`. -/
def slots (tail : Bool) (n : ℕ) (xs : List α) : List (Slot α) :=
  (xs.zipIdx n).map fun p => ⟨p.1, p.2, tail⟩

namespace Ledger

/-- Nothing has joined yet. -/
def empty : Ledger α := ⟨[], [], [], []⟩

/-- Items join at the tail. -/
def joinTail (l : Ledger α) (xs : List α) : Ledger α :=
  { l with
    added := l.added ++ slots true l.added.length xs
    queue := l.queue ++ slots true l.added.length xs }

/-- Items join at the head. -/
def joinHead (l : Ledger α) (xs : List α) : Ledger α :=
  { l with
    added := l.added ++ slots false l.added.length xs
    queue := slots false l.added.length xs ++ l.queue }

/-- The first `n` leave. -/
def pack (l : Ledger α) (n : ℕ) : Ledger α :=
  { l with packed := l.packed ++ l.queue.take n, queue := l.queue.drop n }

/-- Only what meets `stays` stays. -/
def thin (l : Ledger α) (stays : α → Bool) : Ledger α :=
  { l with
    removed := l.removed ++ l.queue.filter fun s => !stays s.item
    queue := l.queue.filter fun s => stays s.item }

/-- Every entry is in one place, no two have one number, and those of the tail are in
the order of their numbers. -/
structure Balanced (l : Ledger α) : Prop where
  conserved : l.added.Perm (l.packed ++ l.removed ++ l.queue)
  stamps : l.added.map Slot.stamp = List.range l.added.length
  ordered : ((l.packed ++ l.queue).filter Slot.tail).Pairwise fun s t => s.stamp < t.stamp

end Ledger

/-! ## The new entries -/

@[simp] theorem length_slots (tail : Bool) (n : ℕ) (xs : List α) :
    (slots tail n xs).length = xs.length := by
  simp [slots]

@[simp] theorem map_item_slots (tail : Bool) (n : ℕ) (xs : List α) :
    (slots tail n xs).map Slot.item = xs := by
  simp [slots, Function.comp_def]

theorem map_stamp_slots (tail : Bool) (n : ℕ) (xs : List α) :
    (slots tail n xs).map Slot.stamp = List.range' n xs.length := by
  simp [slots, Function.comp_def]

theorem tail_of_mem_slots {tail : Bool} {n : ℕ} {xs : List α} {s : Slot α}
    (h : s ∈ slots tail n xs) : s.tail = tail := by
  obtain ⟨p, -, rfl⟩ := List.mem_map.mp h
  rfl

theorem le_stamp_of_mem_slots {tail : Bool} {n : ℕ} {xs : List α} {s : Slot α}
    (h : s ∈ slots tail n xs) : n ≤ s.stamp := by
  have hmem : s.stamp ∈ (slots tail n xs).map Slot.stamp := List.mem_map_of_mem h
  rw [map_stamp_slots, List.mem_range'_1] at hmem
  exact hmem.1

theorem slots_pairwise (tail : Bool) (n : ℕ) (xs : List α) :
    (slots tail n xs).Pairwise fun s t => s.stamp < t.stamp := by
  rw [← List.pairwise_map, map_stamp_slots]
  exact List.pairwise_lt_range'

namespace Ledger

variable {l : Ledger α}

/-- The numbers of what has joined are those before the next one. -/
theorem Balanced.stamp_lt (h : l.Balanced) {s : Slot α} (hs : s ∈ l.packed ++ l.queue) :
    s.stamp < l.added.length := by
  have hadded : s ∈ l.added := by
    rw [h.conserved.mem_iff]
    rcases List.mem_append.mp hs with hp | hq
    · exact List.mem_append_left _ (List.mem_append_left _ hp)
    · exact List.mem_append_right _ hq
  have hmem : s.stamp ∈ l.added.map Slot.stamp := List.mem_map_of_mem hadded
  rw [h.stamps] at hmem
  exact List.mem_range.mp hmem

theorem stamps_append (h : l.Balanced) (tail : Bool) (xs : List α) :
    (l.added ++ slots tail l.added.length xs).map Slot.stamp =
      List.range (l.added ++ slots tail l.added.length xs).length := by
  rw [List.map_append, h.stamps, map_stamp_slots, List.length_append, length_slots,
    List.range_add, List.range'_eq_map_range]

theorem balanced_empty : (empty : Ledger α).Balanced where
  conserved := .refl _
  stamps := rfl
  ordered := .nil

theorem Balanced.joinTail (h : l.Balanced) (xs : List α) : (l.joinTail xs).Balanced where
  conserved := by
    simp only [Ledger.joinTail]
    rw [← List.append_assoc]
    exact h.conserved.append_right _
  stamps := stamps_append h true xs
  ordered := by
    have hnew : (slots true l.added.length xs).filter Slot.tail =
        slots true l.added.length xs :=
      List.filter_eq_self.mpr fun s hs => tail_of_mem_slots hs
    simp only [Ledger.joinTail]
    rw [← List.append_assoc, List.filter_append, hnew, List.pairwise_append]
    refine ⟨h.ordered, slots_pairwise _ _ _, fun s hs t ht => ?_⟩
    exact Nat.lt_of_lt_of_le (h.stamp_lt (List.mem_filter.mp hs).1) (le_stamp_of_mem_slots ht)

theorem Balanced.joinHead (h : l.Balanced) (xs : List α) : (l.joinHead xs).Balanced where
  conserved := by
    simp only [Ledger.joinHead]
    refine (h.conserved.append_right _).trans ?_
    rw [List.append_assoc _ l.queue]
    exact List.perm_append_comm.append_left _
  stamps := stamps_append h false xs
  ordered := by
    have hnew : (slots false l.added.length xs).filter Slot.tail = [] :=
      List.filter_eq_nil_iff.mpr fun s hs => by rw [tail_of_mem_slots hs]; exact Bool.false_ne_true
    have hold := h.ordered
    simp only [Ledger.joinHead]
    rw [List.filter_append] at hold
    rw [List.filter_append, List.filter_append, hnew, List.nil_append]
    exact hold

theorem Balanced.pack (h : l.Balanced) (n : ℕ) : (l.pack n).Balanced where
  conserved := by
    simp only [Ledger.pack]
    refine h.conserved.trans ?_
    rw [List.append_assoc, List.append_assoc, List.append_assoc]
    refine List.Perm.append_left _ ?_
    conv_lhs => rw [← List.take_append_drop n l.queue]
    rw [← List.append_assoc, ← List.append_assoc]
    exact List.perm_append_comm.append_right _
  stamps := h.stamps
  ordered := by
    simp only [Ledger.pack]
    rw [List.append_assoc, List.take_append_drop]
    exact h.ordered

theorem Balanced.thin (h : l.Balanced) (stays : α → Bool) : (l.thin stays).Balanced where
  conserved := by
    simp only [Ledger.thin]
    refine h.conserved.trans ?_
    rw [List.append_assoc, List.append_assoc, List.append_assoc]
    refine List.Perm.append_left _ (List.Perm.append_left _ ?_)
    refine List.Perm.trans ?_ List.perm_append_comm
    exact (List.filter_append_perm (fun s : Slot α => stays s.item) l.queue).symm
  stamps := h.stamps
  ordered := by
    refine h.ordered.sublist (List.Sublist.filter _ ?_)
    exact (List.Sublist.refl _).append List.filter_sublist

/-- What has left from the tail left in the order it came. -/
theorem Balanced.packed_ordered (h : l.Balanced) :
    (l.packed.filter Slot.tail).Pairwise fun s t => s.stamp < t.stamp :=
  h.ordered.sublist ((List.sublist_append_left _ _).filter _)

/-- The items that joined are those that left, those taken out and those still queued. -/
theorem Balanced.items_perm (h : l.Balanced) :
    (l.added.map Slot.item).Perm
      (l.packed.map Slot.item ++ l.removed.map Slot.item ++ l.queue.map Slot.item) := by
  rw [← List.map_append, ← List.map_append]
  exact h.conserved.map _

end Ledger

end QueueLedger
