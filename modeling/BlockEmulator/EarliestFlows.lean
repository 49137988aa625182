import BlockEmulator.Fallible
import BlockEmulator.Heapq
import BlockEmulator.KeyedSort
import Mathlib.Algebra.Order.Field.Rat
import Mathlib.Data.List.Flatten
import Mathlib.Data.List.Induction
import Mathlib.Data.Prod.Lex

/-!
# The earliest flows (`prepare_iot_dataset.py`)

The rows of all flow files go by one after another; those of business flows with a valid time
are numbered as they come, and the first ones by time are kept in a heap of bounded size. The
heap has the latest flow on top, so its items carry the time and the number negated.

Which rows are business flows, and which times they have, is left open. The counters of the
summary, which the selection does not read, are left out.

* `pushEarliest_smallest` — a push keeps the earliest of what has come.
* `selectFlows_eq` — **the flows written are the first ones by time and number**.
-/

namespace BlockEmulator

open Heapq KeyedSort

/-- `SelectedFlow`; the time is a number. -/
structure SelectedFlow (ρ : Type) where
  /-- `time_key` -/
  timeKey : ℚ
  /-- `sequence` -/
  sequence : ℕ
  /-- `flow_file` -/
  flowFile : String
  /-- `row` -/
  row : ρ
  deriving DecidableEq

/-- An item of `selected_heap`. -/
structure FlowItem (ρ : Type) where
  /-- `-selected.time_key` -/
  negativeTime : ℚ
  /-- `-selected.sequence` -/
  negativeSequence : ℤ
  /-- `selected` -/
  selected : SelectedFlow ρ

variable {ρ : Type}

/-- `(item.time_key, item.sequence)`. -/
def SelectedFlow.key (flow : SelectedFlow ρ) : ℚ ×ₗ ℕ := toLex (flow.timeKey, flow.sequence)

/-- What the tuples are compared by; no two of them have one sequence number. -/
def FlowItem.key (item : FlowItem ρ) : ℚ ×ₗ ℤ := toLex (item.negativeTime, item.negativeSequence)

/-- `item` in `push_earliest`. -/
def SelectedFlow.item (selected : SelectedFlow ρ) : FlowItem ρ :=
  ⟨-selected.timeKey, -(selected.sequence : ℤ), selected⟩

/-- `push_earliest`; an empty heap at a limit of 0 has no first item. -/
def pushEarliest (limit : ℕ) (heap : List (FlowItem ρ)) (selected : SelectedFlow ρ) :
    Option (List (FlowItem ρ)) :=
  let item := selected.item
  if heap.length < limit then some (heappush FlowItem.key heap item)
  else
    heap.head?.bind fun first =>
      let latestTime := -first.negativeTime
      let latestSequence := -first.negativeSequence
      if toLex (selected.timeKey, (selected.sequence : ℤ)) < toLex (latestTime, latestSequence) then
        (heapreplace FlowItem.key heap item).map (·.2)
      else some heap

/-- What the selection loop works on. -/
structure FlowSelection (ρ : Type) where
  /-- `selected_heap` -/
  selectedHeap : List (FlowItem ρ)
  /-- `selected_all` -/
  selectedAll : List (SelectedFlow ρ)
  /-- `sequence` -/
  sequence : ℕ

section Selection

variable (isBusinessFlow : ρ → Bool) (parseTimeKey : ρ → Option ℚ) (limit : ℕ)

/-- The loop over the rows: one row of a file. -/
def flowRound (s : FlowSelection ρ) (entry : String × ρ) : Option (FlowSelection ρ) :=
  if isBusinessFlow entry.2 = false then some s
  else
    match parseTimeKey entry.2 with
    | none => some s
    | some timeKey =>
      let selected : SelectedFlow ρ := ⟨timeKey, s.sequence, entry.1, entry.2⟩
      if limit = 0 then
        some { s with selectedAll := s.selectedAll ++ [selected], sequence := s.sequence + 1 }
      else
        (pushEarliest limit s.selectedHeap selected).map fun heap =>
          { s with selectedHeap := heap, sequence := s.sequence + 1 }

/-- The flows that are written, in order. -/
def selectFlows (entries : List (String × List ρ)) : Option (List (SelectedFlow ρ)) :=
  let start : FlowSelection ρ := ⟨[], [], 0⟩
  (entries.foldlM (fun (s : FlowSelection ρ) (entry : String × List ρ) =>
    (entry.2.map (entry.1, ·)).foldlM (flowRound isBusinessFlow parseTimeKey limit) s) start).map
    fun s =>
      sortOn SelectedFlow.key
        (if limit = 0 then s.selectedAll else s.selectedHeap.map (·.selected))

end Selection

/-! ## One push -/

theorem item_selected (flow : SelectedFlow ρ) : flow.item.selected = flow := rfl

/-- The order of the items is the reverse of that of the flows. -/
theorem item_key_le {f g : SelectedFlow ρ} : f.item.key ≤ g.item.key ↔ g.key ≤ f.key := by
  simp only [FlowItem.key, SelectedFlow.item, SelectedFlow.key, Prod.Lex.toLex_le_toLex,
    neg_lt_neg_iff, neg_inj, neg_le_neg_iff, Nat.cast_le]
  exact or_congr_right (and_congr_left fun _ => eq_comm)

/-- The comparison in `push_earliest`. -/
theorem pushEarliest_before {f g : SelectedFlow ρ} :
    toLex (f.timeKey, (f.sequence : ℤ)) <
        toLex (-g.item.negativeTime, -g.item.negativeSequence) ↔ f.key < g.key := by
  simp only [SelectedFlow.item, SelectedFlow.key, Prod.Lex.toLex_lt_toLex, neg_neg, Nat.cast_lt]

/-- The heap holds the earliest of the flows that have come. -/
structure KeepsEarliest (limit : ℕ) (heap : List (FlowItem ρ)) (flows : List (SelectedFlow ρ)) :
    Prop where
  isHeap : IsHeap FlowItem.key heap
  items : ∀ item ∈ heap, item = item.selected.item
  smallest : ∃ rest, Smallest SelectedFlow.key limit (heap.map (·.selected)) rest flows

theorem keepsEarliest_nil (limit : ℕ) : KeepsEarliest limit [] ([] : List (SelectedFlow ρ)) :=
  ⟨isHeap_nil, fun _ h => (nomatch h), [], .nil limit⟩

/-- A heap whose items are those of one with some flow added. -/
theorem items_of_perm {heap : List (FlowItem ρ)} {items : List (FlowItem ρ)}
    {selected : SelectedFlow ρ} (hitems : ∀ item ∈ heap, item = item.selected.item)
    (hperm : items.Perm (selected.item :: heap)) : ∀ item ∈ items, item = item.selected.item := by
  intro item hitem
  rcases List.mem_cons.mp (hperm.mem_iff.mp hitem) with rfl | hitem
  · rw [item_selected]
  · exact hitems item hitem

section Push

variable {limit : ℕ} {heap others : List (FlowItem ρ)} {first : FlowItem ρ}
  {flows : List (SelectedFlow ρ)} {selected : SelectedFlow ρ}

/-- The item on top is that of the latest flow kept. -/
theorem KeepsEarliest.le_top (h : KeepsEarliest limit (first :: others) flows) :
    ∀ f ∈ (first :: others).map (·.selected), f.key ≤ first.selected.key := by
  intro f hf
  obtain ⟨item, hitem, rfl⟩ := List.mem_map.mp hf
  have hle := h.isHeap.root_le hitem
  rw [h.items first List.mem_cons_self, h.items item hitem] at hle
  exact item_key_le.mp hle

/-- A flow for which there is room is kept. -/
theorem KeepsEarliest.room (h : KeepsEarliest limit heap flows) (hlt : heap.length < limit)
    (selected : SelectedFlow ρ) :
    KeepsEarliest limit (heappush FlowItem.key heap selected.item) (flows ++ [selected]) := by
  obtain ⟨hheap, hitems, rest, hsmall⟩ := h
  have hperm : (heappush FlowItem.key heap selected.item).Perm (selected.item :: heap) :=
    heappush_perm heap selected.item
  have hmap : ((heappush FlowItem.key heap selected.item).map (·.selected)).Perm
      (selected :: heap.map (·.selected)) := hperm.map _
  exact ⟨heappush_isHeap hheap _, items_of_perm hitems hperm, [],
    hsmall.add (by rwa [List.length_map]) hmap⟩

theorem KeepsEarliest.length_eq (h : KeepsEarliest limit heap flows) (hfull : limit ≤ heap.length) :
    (heap.map (·.selected)).length = limit := by
  obtain ⟨-, -, rest, hsmall⟩ := h
  have hle := hsmall.length_le
  rw [List.length_map] at hle ⊢
  exact le_antisymm hle hfull

/-- A flow before the latest one kept takes its place. -/
theorem KeepsEarliest.replace (h : KeepsEarliest limit (first :: others) flows)
    (hfull : limit ≤ (first :: others).length) (hbefore : selected.key < first.selected.key)
    (hreplace : heapreplace FlowItem.key (first :: others) selected.item = some (first, heap)) :
    KeepsEarliest limit heap (flows ++ [selected]) := by
  have hlast := h.le_top
  have hlen := h.length_eq hfull
  obtain ⟨hheap, hitems, rest, hsmall⟩ := h
  have hperm := heapreplace_perm hreplace
  have hmap : (first.selected :: heap.map (·.selected)).Perm
      (selected :: (first :: others).map (·.selected)) := hperm.map FlowItem.selected
  exact ⟨heapreplace_isHeap hheap hreplace,
    fun item hitem => items_of_perm hitems hperm item (List.mem_cons_of_mem _ hitem),
    first.selected :: rest, hsmall.swap hlen List.mem_cons_self hlast hbefore.le hmap⟩

/-- Another one is passed over. -/
theorem KeepsEarliest.skip (h : KeepsEarliest limit (first :: others) flows)
    (hfull : limit ≤ (first :: others).length) (hafter : first.selected.key ≤ selected.key) :
    KeepsEarliest limit (first :: others) (flows ++ [selected]) := by
  have hlast := h.le_top
  have hlen := h.length_eq hfull
  obtain ⟨hheap, hitems, rest, hsmall⟩ := h
  exact ⟨hheap, hitems, selected :: rest, hsmall.skip hlen fun f hf => (hlast f hf).trans hafter⟩

/-- **A push keeps the earliest flows.** -/
theorem KeepsEarliest.push (h : KeepsEarliest limit heap flows) (hlimit : 0 < limit)
    (selected : SelectedFlow ρ) :
    ∃ heap', pushEarliest limit heap selected = some heap' ∧
      KeepsEarliest limit heap' (flows ++ [selected]) := by
  rw [pushEarliest]
  by_cases hlt : heap.length < limit
  · exact ⟨_, if_pos hlt, h.room hlt selected⟩
  · have hfull : limit ≤ heap.length := not_lt.mp hlt
    obtain ⟨first, others, rfl⟩ : ∃ first others, heap = first :: others := by
      refine List.exists_cons_of_ne_nil fun hnil => hlt ?_
      rw [hnil]
      exact hlimit
    have hcompare : toLex (selected.timeKey, (selected.sequence : ℤ)) <
        toLex (-first.negativeTime, -first.negativeSequence) ↔
        selected.key < first.selected.key := by
      conv_lhs => rw [h.items first List.mem_cons_self]
      exact pushEarliest_before
    rw [if_neg hlt, List.head?_cons, Option.bind_some]
    by_cases hbefore : selected.key < first.selected.key
    · obtain ⟨heap', hreplace⟩ : ∃ heap', heapreplace FlowItem.key (first :: others)
          selected.item = some (first, heap') := ⟨_, rfl⟩
      refine ⟨heap', ?_, h.replace hfull hbefore hreplace⟩
      rw [if_pos (hcompare.mpr hbefore), hreplace]
      rfl
    · exact ⟨_, if_neg fun hb => hbefore (hcompare.mp hb), h.skip hfull (not_lt.mp hbefore)⟩

end Push

/-! ## The whole stream -/

section Stream

variable (isBusinessFlow : ρ → Bool) (parseTimeKey : ρ → Option ℚ)

/-- The rows of all files, each with the name of its file. -/
def flowRows (entries : List (String × List ρ)) : List (String × ρ) :=
  entries.flatMap fun entry => entry.2.map (entry.1, ·)

/-- The time of a row that is selected. -/
def selectedTime (row : ρ) : Option ℚ :=
  if isBusinessFlow row = false then none else parseTimeKey row

/-- The flows that come by, numbered as they come. -/
def arrivals (rows : List (String × ρ)) : List (SelectedFlow ρ) :=
  ((rows.filterMap fun entry =>
    (selectedTime isBusinessFlow parseTimeKey entry.2).map (·, entry)).zipIdx).map fun e =>
      ⟨e.1.1, e.2, e.1.2.1, e.1.2.2⟩

variable {isBusinessFlow parseTimeKey}

theorem arrivals_concat (rows : List (String × ρ)) (entry : String × ρ) :
    arrivals isBusinessFlow parseTimeKey (rows ++ [entry]) =
      arrivals isBusinessFlow parseTimeKey rows ++
        ((selectedTime isBusinessFlow parseTimeKey entry.2).map fun timeKey =>
          (⟨timeKey, (arrivals isBusinessFlow parseTimeKey rows).length, entry.1, entry.2⟩ :
            SelectedFlow ρ)).toList := by
  simp only [arrivals, List.filterMap_append, List.length_map, List.length_zipIdx]
  cases htime : selectedTime isBusinessFlow parseTimeKey entry.2 with
  | none => simp [htime]
  | some timeKey => simp [htime, List.zipIdx_append]

theorem arrivals_sequence (rows : List (String × ρ)) :
    (arrivals isBusinessFlow parseTimeKey rows).map SelectedFlow.sequence =
      List.range (arrivals isBusinessFlow parseTimeKey rows).length := by
  simp [arrivals, Function.comp_def, List.range_eq_range']

theorem arrivals_keys (rows : List (String × ρ)) :
    ((arrivals isBusinessFlow parseTimeKey rows).map SelectedFlow.key).Nodup := by
  have hnumbers := List.nodup_range (n := (arrivals isBusinessFlow parseTimeKey rows).length)
  rw [← arrivals_sequence] at hnumbers
  refine List.Nodup.of_map (fun k : ℚ ×ₗ ℕ => (ofLex k).2) ?_
  rw [List.map_map]
  exact hnumbers

/-- What the loop has when some rows have gone by. -/
structure Gone (limit : ℕ) (s : FlowSelection ρ) (flows : List (SelectedFlow ρ)) : Prop where
  sequence : s.sequence = flows.length
  all : limit = 0 → s.selectedAll = flows
  heap : 0 < limit → KeepsEarliest limit s.selectedHeap flows

/-- **One row.** -/
theorem Gone.round {limit : ℕ} {s : FlowSelection ρ} {rows : List (String × ρ)}
    (h : Gone limit s (arrivals isBusinessFlow parseTimeKey rows)) (entry : String × ρ) :
    ∃ s', flowRound isBusinessFlow parseTimeKey limit s entry = some s' ∧
      Gone limit s' (arrivals isBusinessFlow parseTimeKey (rows ++ [entry])) := by
  rw [arrivals_concat, flowRound, selectedTime]
  by_cases hbusiness : isBusinessFlow entry.2 = false
  · rw [if_pos hbusiness, if_pos hbusiness]
    exact ⟨s, rfl, by simpa using h⟩
  · rw [if_neg hbusiness, if_neg hbusiness]
    cases parseTimeKey entry.2 with
    | none => exact ⟨s, rfl, by simpa using h⟩
    | some timeKey =>
      rw [← h.sequence]
      simp only [Option.map_some, Option.toList_some]
      by_cases hlimit : limit = 0
      · refine ⟨_, if_pos hlimit, ?_, fun _ => ?_, fun hpos => by omega⟩
        · simp [h.sequence]
        · simp [h.all hlimit]
      · obtain ⟨heap', hpush, hkeeps⟩ := (h.heap (by omega)).push (by omega)
          ⟨timeKey, s.sequence, entry.1, entry.2⟩
        rw [if_neg hlimit, hpush, Option.map_some]
        refine ⟨_, rfl, ?_, fun hzero => absurd hzero hlimit, fun _ => hkeeps⟩
        simp [h.sequence]

/-- **The run**: by induction on the rows that have gone by. -/
theorem rounds_gone (isBusinessFlow : ρ → Bool) (parseTimeKey : ρ → Option ℚ) (limit : ℕ)
    (rows : List (String × ρ)) :
    ∃ s, rows.foldlM (flowRound isBusinessFlow parseTimeKey limit) ⟨[], [], 0⟩ = some s ∧
      Gone limit s (arrivals isBusinessFlow parseTimeKey rows) := by
  induction rows using List.reverseRecOn with
  | nil => exact ⟨_, rfl, rfl, fun _ => rfl, fun _ => keepsEarliest_nil limit⟩
  | append_singleton rows entry ih =>
    obtain ⟨s, hrun, hgone⟩ := ih
    obtain ⟨s', hround, hgone'⟩ := hgone.round entry
    refine ⟨s', ?_, hgone'⟩
    rw [List.foldlM_append, hrun]
    simp [hround]

/-- **The flows written are the first ones by time and number** of all that came by, in this
order, and all of them without a limit. -/
theorem selectFlows_eq (limit : ℕ) (entries : List (String × List ρ)) :
    selectFlows isBusinessFlow parseTimeKey limit entries =
      some (if limit = 0 then
          sortOn SelectedFlow.key (arrivals isBusinessFlow parseTimeKey (flowRows entries))
        else
          (sortOn SelectedFlow.key
            (arrivals isBusinessFlow parseTimeKey (flowRows entries))).take limit) := by
  obtain ⟨s, hrun, hgone⟩ := rounds_gone isBusinessFlow parseTimeKey limit (flowRows entries)
  rw [selectFlows, Fallible.foldlM_nested, ← flowRows, hrun, Option.map_some]
  by_cases hlimit : limit = 0
  · rw [if_pos hlimit, if_pos hlimit, hgone.all hlimit]
  · obtain ⟨rest, hsmall⟩ := (hgone.heap (by omega)).smallest
    rw [if_neg hlimit, if_neg hlimit, hsmall.sortOn_eq (arrivals_keys _)]

end Stream

end BlockEmulator
