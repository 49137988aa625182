import BlockEmulator.Fallible
import BlockEmulator.Heapq
import BlockEmulator.KWayMerge
import Mathlib.Algebra.Order.Field.Rat
import Mathlib.Data.List.Perm.Basic
import Mathlib.Data.Prod.Lex
import Mathlib.Data.Rat.Floor

/-!
# The merge of the flow files (`prepare_iot_multi_anchor_dataset.py`)

The eligible rows of each flow file are sorted by time and written to a temporary file, with
the time as a text of six decimals; the temporary files are merged by what is read back.

The texts of numbers are left open, and so are the times of the rows, which endpoints count,
and what is written for a row. A cell that a row does not have is the empty one. The counters
of the summary, which the merge does not read, are left out.

* `writeSortedTempFiles_eq` — what the temporary files hold.
* `mergeLoop_eq` — **the loop takes the rows in order**.
* `mergeFlows_eq` — **what is written for all files**.
-/

namespace BlockEmulator

open Heapq KeyedSort KWayMerge

/-- A row of `csv.DictReader`: the cells by column, and those beyond the header. -/
structure FlowRow where
  /-- The columns and their cells. -/
  cells : List (String × String)
  /-- `row[None]` -/
  beyond : List String
  deriving DecidableEq

/-- `row.get(name, "")` -/
def FlowRow.cell (row : FlowRow) (name : String) : String := (row.cells.lookup name).getD ""

/-- A file of the archive. -/
structure FlowFile where
  /-- `entry.filename` -/
  filename : String
  /-- What the reader gives. -/
  rows : List FlowRow

/-- Numbers as texts: `format_float`, `float` and `int`, and what is left of a time. -/
structure NumberTexts where
  /-- `format_float` -/
  formatFloat : ℚ → String
  /-- `float` -/
  readFloat : String → Option ℚ
  /-- `int` -/
  readInt : String → Option ℤ
  /-- A time with six decimals. -/
  rounded : ℚ → ℚ
  read_format : ∀ time, readFloat (formatFloat time) = some (rounded time)
  rounded_mono : ∀ time later, time ≤ later → rounded time ≤ rounded later
  read_repr : ∀ n : ℕ, readInt (Nat.repr n) = some (n : ℤ)

/-- An item of `rows` in `write_sorted_temp_files`, with the file it is from. -/
structure EligibleRow where
  /-- `file_index` -/
  fileIndex : ℕ
  /-- `entry.filename` -/
  filename : String
  /-- `time_key` -/
  timeKey : ℚ
  /-- `local_sequence` -/
  localSequence : ℕ
  /-- `row` -/
  row : FlowRow
  deriving DecidableEq

/-- `(item[0], item[1])`. -/
def EligibleRow.place (item : EligibleRow) : ℚ ×ₗ ℕ := toLex (item.timeKey, item.localSequence)

/-- A row of a temporary file. -/
structure TempRow where
  /-- `__time_key` -/
  timeKey : String
  /-- `__local_sequence` -/
  localSequence : String
  /-- `__flow_file` -/
  flowFile : String
  /-- The columns of the flow file. -/
  cells : List (String × String)
  deriving DecidableEq

/-- An item of `heap` in `write_outputs_from_temp`. -/
structure MergeItem where
  /-- `time_key` -/
  timeKey : ℚ
  /-- `temp_reader.index` -/
  readerIndex : ℕ
  /-- `local_sequence` -/
  localSequence : ℤ
  /-- `row` -/
  row : TempRow

/-- What the tuples are compared by; no two of them are from one reader. -/
def MergeItem.key (item : MergeItem) : ℚ ×ₗ ℕ ×ₗ ℤ :=
  toLex (item.timeKey, toLex (item.readerIndex, item.localSequence))

/-- `heap`, and what the readers have left. -/
structure TempMerge where
  /-- `heap` -/
  heap : List MergeItem
  /-- `readers` -/
  readers : List (List TempRow)

/-- The columns that the temporary files begin with. -/
def tempColumns : List String := ["__time_key", "__local_sequence", "__flow_file"]

section Source

variable (T : NumberTexts) (parseTimeKey : String → Option ℚ)
  (hasAnyEndpoint : List (String × String) → Bool)

/-- The time of a row that is kept. -/
def eligibleTime (row : FlowRow) : Option ℚ :=
  match parseTimeKey (row.cell "time") with
  | none => none
  | some timeKey => if hasAnyEndpoint row.cells = false then none else some timeKey

/-- `rows`, before they are sorted. -/
def fileRows (fileIndex : ℕ) (file : FlowFile) : List EligibleRow :=
  file.rows.zipIdx.filterMap fun entry =>
    (eligibleTime parseTimeKey hasAnyEndpoint entry.1).map fun timeKey =>
      ⟨fileIndex, file.filename, timeKey, entry.2, entry.1⟩

/-- `out`, written and read back. The columns of the row are written over the first three;
`csv.DictWriter` fails with a `ValueError` on cells without a column. -/
def writeTempRow (item : EligibleRow) : Option TempRow :=
  let out (name value : String) : String := (item.row.cells.lookup name).getD value
  if item.row.beyond = [] then
    some {
      timeKey := out "__time_key" (T.formatFloat item.timeKey)
      localSequence := out "__local_sequence" (Nat.repr item.localSequence)
      flowFile := out "__flow_file" item.filename
      cells := item.row.cells }
  else none

/-- `write_sorted_temp_files`: what the temporary files hold. -/
def writeSortedTempFiles (flowEntries : List FlowFile) : Option (List (List TempRow)) :=
  flowEntries.zipIdx.mapM fun entry =>
    (sortOn EligibleRow.place (fileRows parseTimeKey hasAnyEndpoint entry.2 entry.1)).mapM
      (writeTempRow T)

/-- `push_next_temp_row`. -/
def pushNextTempRow (m : TempMerge) (index : ℕ) : Option TempMerge :=
  match m.readers.getD index [] with
  | [] => some m
  | row :: rest =>
    (T.readFloat row.timeKey).bind fun timeKey =>
      (T.readInt row.localSequence).map fun localSequence =>
        ⟨heappush MergeItem.key m.heap ⟨timeKey, index, localSequence, row⟩,
          m.readers.set index rest⟩

section Loop

variable {σ : Type} (writeRow : σ → ℕ → TempRow → Option σ) (limit : ℕ)

/-- The loop of `write_outputs_from_temp`: what it has written, and `tx_index`. The first number
bounds the rows. -/
def mergeLoop : ℕ → TempMerge → ℕ → σ → Option (σ × ℕ)
  | 0, _, _, _ => none
  | n + 1, m, txIndex, out =>
    match heappop MergeItem.key m.heap with
    | none => some (out, txIndex)
    | some (item, heap) =>
      (writeRow out txIndex item.row).bind fun out =>
        if 0 < limit ∧ limit ≤ txIndex + 1 then some (out, txIndex + 1)
        else
          (pushNextTempRow T ⟨heap, m.readers⟩ item.readerIndex).bind fun m =>
            mergeLoop n m (txIndex + 1) out

/-- `write_outputs_from_temp`. -/
def writeOutputsFromTemp (tempFiles : List (List TempRow)) (start : σ) : Option (σ × ℕ) :=
  ((List.range tempFiles.length).foldlM (pushNextTempRow T) ⟨[], tempFiles⟩).bind fun m =>
    mergeLoop T writeRow limit (tempFiles.flatten.length + 1) m 0 start

/-- `write_sorted_temp_files` and `write_outputs_from_temp`. -/
def mergeFlows (flowEntries : List FlowFile) (start : σ) : Option (σ × ℕ) :=
  (writeSortedTempFiles T parseTimeKey hasAnyEndpoint flowEntries).bind fun tempFiles =>
    writeOutputsFromTemp T writeRow limit tempFiles start

end Loop

end Source

/-! ## The temporary files -/

/-- The order of the rows: by the time with six decimals, the file, the time itself and the
position in the file. -/
def EligibleRow.key (T : NumberTexts) (item : EligibleRow) : ℚ ×ₗ ℕ ×ₗ ℚ ×ₗ ℕ :=
  toLex (T.rounded item.timeKey, toLex (item.fileIndex, item.place))

/-- What is read back for a row. -/
def EligibleRow.temp (T : NumberTexts) (item : EligibleRow) : TempRow :=
  ⟨T.formatFloat item.timeKey, Nat.repr item.localSequence, item.filename, item.row.cells⟩

/-- What the heap has for a row. -/
def EligibleRow.item (T : NumberTexts) (item : EligibleRow) : MergeItem :=
  ⟨T.rounded item.timeKey, item.fileIndex, item.localSequence, item.temp T⟩

section Rows

variable (T : NumberTexts) (parseTimeKey : String → Option ℚ)
  (hasAnyEndpoint : List (String × String) → Bool)

/-- The rows of all files that are kept. -/
def eligibleRows (flowEntries : List FlowFile) : List EligibleRow :=
  flowEntries.zipIdx.flatMap fun entry => fileRows parseTimeKey hasAnyEndpoint entry.2 entry.1

/-- The rows of each file that are kept, in order. -/
def sortedSources (flowEntries : List FlowFile) : List (List EligibleRow) :=
  flowEntries.zipIdx.map fun entry =>
    sortOn EligibleRow.place (fileRows parseTimeKey hasAnyEndpoint entry.2 entry.1)

/-- The rows that are kept have no cells beyond the header, and no columns that the temporary
files begin with. -/
def FlowFile.Plain (file : FlowFile) : Prop :=
  ∀ row ∈ file.rows, eligibleTime parseTimeKey hasAnyEndpoint row ≠ none →
    row.beyond = [] ∧ ∀ name ∈ tempColumns, row.cells.lookup name = none

instance (file : FlowFile) : Decidable (file.Plain parseTimeKey hasAnyEndpoint) :=
  inferInstanceAs (Decidable (∀ row ∈ file.rows,
    eligibleTime parseTimeKey hasAnyEndpoint row ≠ none →
      row.beyond = [] ∧ ∀ name ∈ tempColumns, row.cells.lookup name = none))

variable {parseTimeKey hasAnyEndpoint} {file : FlowFile} {item other : EligibleRow} {index : ℕ}

theorem fileIndex_of_mem (h : item ∈ fileRows parseTimeKey hasAnyEndpoint index file) :
    item.fileIndex = index := by
  obtain ⟨entry, -, hitem⟩ := List.mem_filterMap.mp h
  obtain ⟨timeKey, -, rfl⟩ := Option.map_eq_some_iff.mp hitem
  rfl

theorem row_of_mem (h : item ∈ fileRows parseTimeKey hasAnyEndpoint index file) :
    item.row ∈ file.rows ∧ eligibleTime parseTimeKey hasAnyEndpoint item.row ≠ none := by
  obtain ⟨entry, hentry, hitem⟩ := List.mem_filterMap.mp h
  obtain ⟨timeKey, htime, rfl⟩ := Option.map_eq_some_iff.mp hitem
  exact ⟨List.fst_mem_of_mem_zipIdx hentry, by rw [htime]; exact Option.some_ne_none timeKey⟩

/-- A row of a plain file is read back as it was. -/
theorem writeTempRow_of_mem (hplain : file.Plain parseTimeKey hasAnyEndpoint)
    (h : item ∈ fileRows parseTimeKey hasAnyEndpoint index file) :
    writeTempRow T item = some (item.temp T) := by
  obtain ⟨hrow, htime⟩ := row_of_mem h
  obtain ⟨hbeyond, hcolumns⟩ := hplain item.row hrow htime
  have hnone : ∀ name ∈ tempColumns, ∀ value,
      (item.row.cells.lookup name).getD value = value := fun name hname value => by
    rw [hcolumns name hname, Option.getD_none]
  rw [writeTempRow, if_pos hbeyond]
  dsimp only
  rw [hnone "__time_key" (by decide), hnone "__local_sequence" (by decide),
    hnone "__flow_file" (by decide)]
  rfl

/-- **What the temporary files hold.** -/
theorem writeSortedTempFiles_eq {flowEntries : List FlowFile}
    (hplain : ∀ file ∈ flowEntries, file.Plain parseTimeKey hasAnyEndpoint) :
    writeSortedTempFiles T parseTimeKey hasAnyEndpoint flowEntries =
      some ((sortedSources parseTimeKey hasAnyEndpoint flowEntries).map
        (·.map (EligibleRow.temp T))) := by
  rw [sortedSources, List.map_map]
  refine Fallible.mapM_some fun entry hentry => Fallible.mapM_some fun item hitem => ?_
  exact writeTempRow_of_mem T (hplain _ (List.fst_mem_of_mem_zipIdx hentry)) (mem_sortOn.mp hitem)

/-- Rounding keeps the order in a file. -/
theorem key_le_of_place_le (hfile : item.fileIndex = other.fileIndex)
    (h : item.place ≤ other.place) : item.key T ≤ other.key T := by
  have htime : item.timeKey ≤ other.timeKey := by
    rcases Prod.Lex.le_iff.mp h with hlt | ⟨heq, -⟩
    · exact hlt.le
    · exact heq.le
  refine Prod.Lex.le_iff.mpr ?_
  rcases (T.rounded_mono _ _ htime).lt_or_eq with hlt | heq
  · exact .inl hlt
  · exact .inr ⟨heq, Prod.Lex.le_iff.mpr (.inr ⟨hfile, h⟩)⟩

/-- The order of the heap is that of the rows, from one file to another. -/
theorem key_le_of_item_le (hfile : item.fileIndex ≠ other.fileIndex)
    (h : (item.item T).key ≤ (other.item T).key) : item.key T ≤ other.key T := by
  refine Prod.Lex.le_iff.mpr ?_
  rcases Prod.Lex.le_iff.mp h with hlt | ⟨heq, hle⟩
  · exact .inl hlt
  · refine .inr ⟨heq, Prod.Lex.le_iff.mpr (.inl ?_)⟩
    rcases Prod.Lex.le_iff.mp hle with hlt | ⟨hsame, -⟩
    · exact hlt
    · exact absurd hsame hfile

/-- What is left of each file: in order, and numbered by the files. -/
structure Sources (sources : List (List EligibleRow)) : Prop where
  sorted : ∀ s ∈ sources, s.Pairwise fun a b => a.key T ≤ b.key T
  index : ∀ (i : ℕ) (s : List EligibleRow), sources[i]? = some s → ∀ item ∈ s, item.fileIndex = i
  keys : (sources.flatten.map (EligibleRow.key T)).Nodup

end Rows

/-! ## The readers and the heap -/

section Readers

variable {T : NumberTexts} {sources pre post : List (List EligibleRow)} {m : TempMerge}

/-- A reader's next row goes into the heap. -/
theorem pushNextTempRow_spec {index : ℕ} {s : List EligibleRow}
    (hreader : m.readers[index]? = some (s.map (EligibleRow.temp T)))
    (hindex : ∀ item ∈ s, item.fileIndex = index) (hheap : IsHeap MergeItem.key m.heap) :
    ∃ m', pushNextTempRow T m index = some m' ∧ IsHeap MergeItem.key m'.heap ∧
      m'.heap.Perm (s.head?.toList.map (EligibleRow.item T) ++ m.heap) ∧
      m'.readers = m.readers.set index (s.tail.map (EligibleRow.temp T)) := by
  have hget : m.readers.getD index [] = s.map (EligibleRow.temp T) := by
    rw [List.getD_eq_getElem?_getD, hreader, Option.getD_some]
  rw [pushNextTempRow, hget]
  cases s with
  | nil =>
    obtain ⟨hlt, hnil⟩ := List.getElem?_eq_some_iff.mp hreader
    refine ⟨m, rfl, hheap, .refl _, ?_⟩
    rw [List.tail_nil, ← hnil, List.set_getElem_self]
  | cons item t =>
    have hitem := hindex item List.mem_cons_self
    simp only [List.map_cons, EligibleRow.temp, T.read_format, T.read_repr, Option.bind_some,
      Option.map_some]
    refine ⟨_, rfl, heappush_isHeap hheap _, ?_, rfl⟩
    rw [← hitem]
    exact heappush_perm m.heap (item.item T)

/-- The heap has the first row of each file, the readers have the others. -/
structure Merging (T : NumberTexts) (sources : List (List EligibleRow)) (m : TempMerge) : Prop where
  isHeap : IsHeap MergeItem.key m.heap
  items : m.heap.Perm ((fronts sources).map (EligibleRow.item T))
  readers : m.readers = sources.map fun s => s.tail.map (EligibleRow.temp T)

/-- After a number of readers, these have given their first rows. -/
theorem pushFirst_spec (hindex : ∀ (i : ℕ) (s : List EligibleRow), sources[i]? = some s →
      ∀ item ∈ s, item.fileIndex = i) {n : ℕ} (hn : n ≤ sources.length) :
    ∃ m, (List.range n).foldlM (pushNextTempRow T)
        ⟨[], sources.map (·.map (EligibleRow.temp T))⟩ = some m ∧ IsHeap MergeItem.key m.heap ∧
      m.heap.Perm ((fronts (sources.take n)).map (EligibleRow.item T)) ∧
      m.readers = (sources.take n).map (fun s => s.tail.map (EligibleRow.temp T)) ++
        (sources.drop n).map (·.map (EligibleRow.temp T)) := by
  induction n with
  | zero => exact ⟨_, rfl, isHeap_nil, .refl _, rfl⟩
  | succ n ih =>
    obtain ⟨m, hrun, hheap, hitems, hreaders⟩ := ih (by omega)
    have hlen : ((sources.take n).map fun s => s.tail.map (EligibleRow.temp T)).length = n := by
      rw [List.length_map, List.length_take, Nat.min_eq_left (by omega)]
    have hdrop : sources.drop n = sources[n] :: sources.drop (n + 1) :=
      List.drop_eq_getElem_cons hn
    have hreader : m.readers[n]? = some (sources[n].map (EligibleRow.temp T)) := by
      rw [hreaders, List.getElem?_append_right hlen.le, hlen, Nat.sub_self, hdrop]
      rfl
    obtain ⟨m', hpush, hheap', hitems', hreaders'⟩ := pushNextTempRow_spec hreader
      (hindex n _ (List.getElem?_eq_getElem hn)) hheap
    have htake : sources.take (n + 1) = sources.take n ++ [sources[n]] :=
      (List.take_append_getElem hn).symm
    refine ⟨m', ?_, hheap', ?_, ?_⟩
    · rw [List.range_succ, List.foldlM_append, hrun]
      simp [hpush]
    · rw [htake, fronts_append, fronts_singleton, List.map_append]
      exact hitems'.trans ((hitems.append_left _).trans List.perm_append_comm)
    · rw [hreaders', hreaders, List.set_append_right _ _ hlen.le, hlen, Nat.sub_self, hdrop,
        List.map_cons, List.set_cons_zero, htake, List.map_append, List.append_assoc]
      rfl

/-- The first rows of all files. -/
theorem pushAll_spec (hindex : ∀ (i : ℕ) (s : List EligibleRow), sources[i]? = some s →
      ∀ item ∈ s, item.fileIndex = i) :
    ∃ m, (List.range sources.length).foldlM (pushNextTempRow T)
        ⟨[], sources.map (·.map (EligibleRow.temp T))⟩ = some m ∧ Merging T sources m := by
  obtain ⟨m, hrun, hheap, hitems, hreaders⟩ := pushFirst_spec hindex (Nat.le_refl _)
  rw [List.take_length] at hitems hreaders
  rw [List.drop_length, List.map_nil, List.append_nil] at hreaders
  exact ⟨m, hrun, hheap, hitems, hreaders⟩

/-- A file goes on. -/
theorem Sources.next {x : EligibleRow} {t : List EligibleRow}
    (hs : Sources T (pre ++ (x :: t) :: post)) : Sources T (pre ++ t :: post) := by
  have hat : (pre ++ (x :: t) :: post)[pre.length]? = some (x :: t) := by simp
  have hflatten : (pre ++ (x :: t) :: post).flatten.Perm (x :: (pre ++ t :: post).flatten) :=
    flatten_perm
  refine ⟨fun s hmem => ?_, fun i s hi => ?_, ?_⟩
  · rcases List.mem_append.mp hmem with hmem | hmem
    · exact hs.sorted s (List.mem_append_left _ hmem)
    rcases List.mem_cons.mp hmem with rfl | hmem
    · exact (List.pairwise_cons.mp (hs.sorted (x :: s) (by simp))).2
    · exact hs.sorted s (by simp [hmem])
  · by_cases hsame : i = pre.length
    · subst hsame
      obtain rfl : t = s := by simpa using hi
      exact fun item hitem => hs.index _ _ hat item (List.mem_cons_of_mem x hitem)
    · refine hs.index i s ?_
      rw [← hi, List.getElem?_append, List.getElem?_append]
      split
      · rfl
      · obtain ⟨k, hk⟩ : ∃ k, i - pre.length = k + 1 := ⟨i - pre.length - 1, by omega⟩
        rw [hk, List.getElem?_cons_succ, List.getElem?_cons_succ]
  · exact (List.nodup_cons.mp ((hflatten.map _).nodup_iff.mp hs.keys)).2

/-- The item on top of the heap is the first row in order. -/
theorem Merging.least (hm : Merging T sources m) (hs : Sources T sources) {x : EligibleRow}
    (hx : x ∈ fronts sources)
    (htop : ∀ item ∈ m.heap, (x.item T).key ≤ item.key) {y : EligibleRow}
    (hy : y ∈ fronts sources) : x.key T ≤ y.key T := by
  have hle : (x.item T).key ≤ (y.item T).key :=
    htop _ (hm.items.mem_iff.mpr (List.mem_map_of_mem hy))
  obtain ⟨t, ht⟩ := mem_fronts.mp hx
  obtain ⟨u, hu⟩ := mem_fronts.mp hy
  obtain ⟨i, hi⟩ := List.getElem?_of_mem ht
  obtain ⟨j, hj⟩ := List.getElem?_of_mem hu
  by_cases hsame : i = j
  · -- one file has one first row
    rw [hsame, hj] at hi
    rw [(List.cons.inj (Option.some.inj hi)).1]
  · refine key_le_of_item_le T ?_ hle
    rw [hs.index i _ hi x List.mem_cons_self, hs.index j _ hj y List.mem_cons_self]
    exact hsame

/-- **What is popped is the first row in order**, and its file goes on. -/
theorem Merging.pop (hm : Merging T sources m) (hs : Sources T sources) {item : MergeItem}
    {heap : List MergeItem} (hpop : heappop MergeItem.key m.heap = some (item, heap)) :
    ∃ x rest, item = x.item T ∧ Sources T rest ∧ sources.flatten.Perm (x :: rest.flatten) ∧
      sortOn (EligibleRow.key T) sources.flatten =
        x :: sortOn (EligibleRow.key T) rest.flatten ∧
      ∃ m', pushNextTempRow T ⟨heap, m.readers⟩ item.readerIndex = some m' ∧
        Merging T rest m' := by
  have hperm := (heappop_perm hpop).trans hm.items
  obtain ⟨x, hx, rfl⟩ := List.mem_map.mp (hperm.mem_iff.mp List.mem_cons_self)
  have hleast : ∀ y ∈ fronts sources, x.key T ≤ y.key T := fun y hy =>
    hm.least hs hx (fun _ hitem => heappop_le hm.isHeap hpop hitem) hy
  obtain ⟨pre, t, post, rfl⟩ := exists_split hx
  have hat : (pre ++ (x :: t) :: post)[pre.length]? = some (x :: t) := by simp
  have hindex := hs.index _ _ hat
  have hxindex : (x.item T).readerIndex = pre.length := hindex x List.mem_cons_self
  refine ⟨x, pre ++ t :: post, rfl, hs.next, flatten_perm,
    sortOn_flatten hs.keys hs.sorted hleast, ?_⟩
  have hreader : m.readers[pre.length]? = some (t.map (EligibleRow.temp T)) := by
    rw [hm.readers]
    simp
  have hsplit : (fronts (pre ++ (x :: t) :: post)).Perm (x :: fronts (pre ++ post)) :=
    fronts_split (x :: t)
  have hrest : heap.Perm ((fronts (pre ++ post)).map (EligibleRow.item T)) :=
    (List.perm_cons _).mp (hperm.trans (hsplit.map _))
  obtain ⟨m', hpush, hheap', hitems', hreaders'⟩ := pushNextTempRow_spec (m := ⟨heap, m.readers⟩)
    hreader (fun item hitem => hindex item (List.mem_cons_of_mem x hitem))
    (heappop_isHeap hm.isHeap hpop)
  refine ⟨m', by rw [hxindex, hpush], hheap', ?_, ?_⟩
  · refine hitems'.trans ((hrest.append_left _).trans ?_)
    rw [← List.map_append]
    exact ((fronts_split t).map _).symm
  · rw [hreaders', hm.readers]
    simp [List.set_append_right]

/-- The loop ends when all rows are written. -/
theorem Merging.empty (hm : Merging T sources m) (hpop : heappop MergeItem.key m.heap = none) :
    sources.flatten = [] := by
  have hnil := hm.items
  rw [heappop_eq_none_iff.mp hpop] at hnil
  exact flatten_eq_nil (List.map_eq_nil_iff.mp (List.nil_perm.mp hnil))

end Readers

/-! ## The loop -/

/-- The rows that are written, without a limit or up to it. -/
def firstRows (limit count : ℕ) (rows : List EligibleRow) : List EligibleRow :=
  if limit = 0 then rows else rows.take (limit - count)

section Loop

variable {σ : Type} (writeRow : σ → ℕ → TempRow → Option σ) (T : NumberTexts)

/-- Rows written one after another, with their numbers from a number on. -/
def writeRows (rows : List EligibleRow) (count : ℕ) (out : σ) : Option (σ × ℕ) :=
  ((rows.zipIdx count).foldlM (fun out e => writeRow out e.2 (e.1.temp T)) out).map
    (·, count + rows.length)

variable {T}

theorem writeRows_nil (count : ℕ) (out : σ) :
    writeRows writeRow T [] count out = some (out, count) := rfl

theorem writeRows_cons (x : EligibleRow) (rows : List EligibleRow) (count : ℕ) (out : σ) :
    writeRows writeRow T (x :: rows) count out =
      (writeRow out count (x.temp T)).bind fun out =>
        writeRows writeRow T rows (count + 1) out := by
  rw [writeRows, List.zipIdx_cons, List.foldlM_cons]
  cases writeRow out count (x.temp T) with
  | none => rfl
  | some out' =>
    rw [List.length_cons, Nat.add_comm rows.length, ← Nat.add_assoc]
    rfl

/-- **The loop takes the rows in order.** It is by induction on the bound; what is left of the
files is general. -/
theorem mergeLoop_eq (limit : ℕ) {n : ℕ} {sources : List (List EligibleRow)} {m : TempMerge}
    (hm : Merging T sources m) (hs : Sources T sources) (hn : sources.flatten.length < n)
    {count : ℕ} (hcount : limit = 0 ∨ count < limit) (out : σ) :
    mergeLoop T writeRow limit n m count out =
      writeRows writeRow T
        (firstRows limit count (sortOn (EligibleRow.key T) sources.flatten)) count out := by
  induction n generalizing sources m count out with
  | zero => exact absurd hn (Nat.not_lt_zero _)
  | succ n ih =>
    rw [mergeLoop]
    cases hpop : heappop MergeItem.key m.heap with
    | none =>
      rw [hm.empty hpop, sortOn, List.mergeSort_nil, firstRows, List.take_nil, ite_self]
      rfl
    | some popped =>
      obtain ⟨item, heap⟩ := popped
      obtain ⟨x, rest, rfl, hs', hperm, hsort, m', hpush, hm'⟩ := hm.pop hs hpop
      have hlen := hperm.length_eq
      rw [List.length_cons] at hlen
      -- there is room for this row; for the next one there may be none
      have hfirst : firstRows limit count (x :: sortOn (EligibleRow.key T) rest.flatten) =
          x :: firstRows limit (count + 1) (sortOn (EligibleRow.key T) rest.flatten) := by
        rw [firstRows, firstRows]
        split
        · rfl
        · rw [show limit - count = limit - (count + 1) + 1 by omega, List.take_succ_cons]
      rw [hsort, hfirst, writeRows_cons]
      refine Option.bind_congr fun out' _ => ?_
      by_cases hstop : 0 < limit ∧ limit ≤ count + 1
      · rw [if_pos hstop, firstRows, if_neg (by omega), Nat.sub_eq_zero_of_le hstop.2,
          List.take_zero, writeRows_nil]
      · rw [if_neg hstop, hpush]
        exact ih hm' hs' (by omega) (by omega) out'

end Loop

/-! ## All files -/

section Files

variable (T : NumberTexts) {parseTimeKey : String → Option ℚ}
  {hasAnyEndpoint : List (String × String) → Bool}

/-- The rows of a file are numbered in turn. -/
theorem fileRows_numbered (fileIndex : ℕ) (file : FlowFile) :
    (fileRows parseTimeKey hasAnyEndpoint fileIndex file).Pairwise fun a b =>
      a.localSequence < b.localSequence := by
  have hnumbers : (file.rows.zipIdx.map (·.2)).Pairwise (· < ·) := by
    rw [List.zipIdx_map_snd]
    exact List.pairwise_lt_range'
  refine List.Pairwise.filterMap _ (fun a b hlt item hitem item' hitem' => ?_)
    (List.pairwise_map.mp hnumbers)
  obtain ⟨_, -, rfl⟩ := Option.map_eq_some_iff.mp hitem
  obtain ⟨_, -, rfl⟩ := Option.map_eq_some_iff.mp hitem'
  exact hlt

/-- No two rows have one place. -/
theorem eligibleRows_keys (flowEntries : List FlowFile) :
    ((eligibleRows parseTimeKey hasAnyEndpoint flowEntries).map (EligibleRow.key T)).Nodup := by
  have hfiles : (flowEntries.zipIdx.map (·.2)).Pairwise (· ≠ ·) := by
    rw [List.zipIdx_map_snd]
    exact List.Pairwise.imp ne_of_lt List.pairwise_lt_range'
  refine List.pairwise_map.mpr (List.pairwise_flatMap.mpr ⟨fun entry _ => ?_, ?_⟩)
  · refine (fileRows_numbered entry.2 entry.1).imp fun hlt heq => hlt.ne ?_
    exact congrArg (fun k : ℚ ×ₗ ℕ ×ₗ ℚ ×ₗ ℕ => (ofLex (ofLex (ofLex k).2).2).2) heq
  · refine (List.pairwise_map.mp hfiles).imp fun hne a ha b hb heq => hne ?_
    rw [← fileIndex_of_mem ha, ← fileIndex_of_mem hb]
    exact congrArg (fun k : ℚ ×ₗ ℕ ×ₗ ℚ ×ₗ ℕ => (ofLex (ofLex k).2).1) heq

theorem sortedSources_perm (flowEntries : List FlowFile) :
    (sortedSources parseTimeKey hasAnyEndpoint flowEntries).flatten.Perm
      (eligibleRows parseTimeKey hasAnyEndpoint flowEntries) := by
  rw [sortedSources, ← List.flatMap_def]
  exact List.Perm.flatMap_left _ fun entry _ => sortOn_perm _

/-- What the temporary files hold is in order and numbered. -/
theorem sortedSources_sources (flowEntries : List FlowFile) :
    Sources T (sortedSources parseTimeKey hasAnyEndpoint flowEntries) := by
  refine ⟨fun s hs => ?_, fun i s hi item hitem => ?_, ?_⟩
  · obtain ⟨entry, -, rfl⟩ := List.mem_map.mp hs
    refine (pairwise_sortOn _).imp_of_mem fun ha hb hle => key_le_of_place_le T ?_ hle
    rw [fileIndex_of_mem (mem_sortOn.mp ha), fileIndex_of_mem (mem_sortOn.mp hb)]
  · rw [sortedSources, List.getElem?_map, List.getElem?_zipIdx, Nat.zero_add] at hi
    obtain ⟨entry, hentry, rfl⟩ := Option.map_eq_some_iff.mp hi
    obtain ⟨file, -, rfl⟩ := Option.map_eq_some_iff.mp hentry
    exact fileIndex_of_mem (mem_sortOn.mp hitem)
  · exact ((sortedSources_perm flowEntries).map _).nodup_iff.mpr (eligibleRows_keys T flowEntries)

/-- **What is written for all files**: the rows that are kept, in order, up to the limit, each
with its number. -/
theorem mergeFlows_eq {σ : Type} (writeRow : σ → ℕ → TempRow → Option σ) (limit : ℕ)
    {flowEntries : List FlowFile}
    (hplain : ∀ file ∈ flowEntries, file.Plain parseTimeKey hasAnyEndpoint) (start : σ) :
    mergeFlows T parseTimeKey hasAnyEndpoint writeRow limit flowEntries start =
      writeRows writeRow T
        (firstRows limit 0
          (sortOn (EligibleRow.key T) (eligibleRows parseTimeKey hasAnyEndpoint flowEntries)))
        0 start := by
  have hs : Sources T (sortedSources parseTimeKey hasAnyEndpoint flowEntries) :=
    sortedSources_sources T flowEntries
  obtain ⟨m, hrun, hm⟩ := pushAll_spec hs.index
  have hlen : ((sortedSources parseTimeKey hasAnyEndpoint flowEntries).map
      (·.map (EligibleRow.temp T))).flatten.length =
        (sortedSources parseTimeKey hasAnyEndpoint flowEntries).flatten.length := by
    rw [← List.map_flatten, List.length_map]
  rw [mergeFlows, writeSortedTempFiles_eq T hplain, Option.bind_some, writeOutputsFromTemp,
    List.length_map, hrun, Option.bind_some, hlen,
    mergeLoop_eq writeRow limit hm hs (Nat.lt_succ_self _) (by omega),
    sortOn_congr (eligibleRows_keys T flowEntries) (sortedSources_perm flowEntries)]

end Files

section Example

/-- A text of digits. -/
def wholeNumber (text : String) : Option ℕ :=
  if text.toList ≠ [] ∧ text.toList.all Char.isDigit then some (Nat.ofDigitChars 10 text.toList 0)
  else none

theorem wholeNumber_repr (n : ℕ) : wholeNumber (Nat.repr n) = some n := by
  rw [wholeNumber, Nat.toList_repr, Nat.ofDigitChars_ten_toDigits]
  refine if_pos ⟨Nat.toDigits_ne_nil, List.all_eq_true.mpr fun c hc => ?_⟩
  exact Nat.isDigit_of_mem_toDigits (by decide) (by decide) hc

/-- Times of whole seconds. -/
def wholeSeconds : NumberTexts where
  formatFloat time := Nat.repr ⌊time⌋₊
  readFloat text := (wholeNumber text).map fun n : ℕ => (n : ℚ)
  readInt text := (wholeNumber text).map fun n : ℕ => (n : ℤ)
  rounded time := (⌊time⌋₊ : ℚ)
  read_format time := by rw [wholeNumber_repr, Option.map_some]
  rounded_mono _ _ h := Nat.cast_le.mpr (Nat.floor_mono h)
  read_repr n := by rw [wholeNumber_repr, Option.map_some]

/-- The times of the rows below. -/
def someTimes : List (String × ℚ) :=
  [("2016-09-23T00:00:01", 1474588801), ("2016-09-23T00:00:02", 1474588802)]

/-- A row at a time, with more columns and cells without a column. -/
def rowAt (time : String) (more : List (String × String)) (beyond : List String) : FlowRow :=
  ⟨("time", time) :: ("srcIp", "10.0.0.1") :: more, beyond⟩

/-- What is written, row by row. -/
def recordRow (out : List (ℕ × String × String)) (txIndex : ℕ) (row : TempRow) :
    Option (List (ℕ × String × String)) :=
  some (out ++ [(txIndex, row.flowFile, (row.cells.lookup "time").getD "")])

/-- `parse_time_key` on the rows below. -/
def someTime (cell : String) : Option ℚ := someTimes.lookup cell

/-- `has_any_endpoint` on the rows below. -/
def someEndpoint (cells : List (String × String)) : Bool := (cells.lookup "srcIp").isSome

/-- Two files with equal times. -/
def equalTimes : List FlowFile :=
  [⟨"a.csv", [rowAt "2016-09-23T00:00:02" [] [], rowAt "" [] [], rowAt "2016-09-23T00:00:01" [] []]⟩,
    ⟨"b.csv", [rowAt "2016-09-23T00:00:01" [] [], rowAt "2016-09-23T00:00:02" [] []]⟩]

/-- Three of four rows. -/
theorem mergeFlows_eq_three :
    mergeFlows wholeSeconds someTime someEndpoint recordRow 3 equalTimes [] =
      some ([(0, "a.csv", "2016-09-23T00:00:01"), (1, "b.csv", "2016-09-23T00:00:01"),
        (2, "a.csv", "2016-09-23T00:00:02")], 3) := by
  have hsort : [⟨0, "a.csv", 1474588801, 2, rowAt "2016-09-23T00:00:01" [] []⟩,
      ⟨1, "b.csv", 1474588801, 0, rowAt "2016-09-23T00:00:01" [] []⟩,
      ⟨0, "a.csv", 1474588802, 0, rowAt "2016-09-23T00:00:02" [] []⟩,
      ⟨1, "b.csv", 1474588802, 1, rowAt "2016-09-23T00:00:02" [] []⟩] =
      sortOn (EligibleRow.key wholeSeconds) (eligibleRows someTime someEndpoint equalTimes) :=
    eq_sortOn (eligibleRows_keys wholeSeconds _) (by decide) (by decide)
  rw [mergeFlows_eq wholeSeconds recordRow 3 (by decide) [], ← hsort]
  rfl

/-- A column that the temporary files begin with. -/
def reservedColumn : List FlowFile :=
  [⟨"a.csv", [rowAt "2016-09-23T00:00:01" [("__time_key", "1474588803")] []]⟩,
    ⟨"b.csv", [rowAt "2016-09-23T00:00:02" [] []]⟩]

/-- A cell without a column. -/
def cellBeyond : List FlowFile := [⟨"a.csv", [rowAt "2016-09-23T00:00:01" [] ["0"]]⟩]

/-- A column of the flow file may be read as the time, and a cell beyond the header ends the
run. -/
theorem mergeFlows_not_plain :
    (mergeFlows wholeSeconds someTime someEndpoint recordRow 0 reservedColumn [] =
        some ([(0, "b.csv", "2016-09-23T00:00:02"), (1, "a.csv", "2016-09-23T00:00:01")], 2) ∧
      sortOn (EligibleRow.key wholeSeconds) (eligibleRows someTime someEndpoint reservedColumn) =
        [⟨0, "a.csv", 1474588801, 0,
            rowAt "2016-09-23T00:00:01" [("__time_key", "1474588803")] []⟩,
          ⟨1, "b.csv", 1474588802, 0, rowAt "2016-09-23T00:00:02" [] []⟩]) ∧
      mergeFlows wholeSeconds someTime someEndpoint recordRow 0 cellBeyond [] = none ∧
      eligibleRows someTime someEndpoint cellBeyond =
        [⟨0, "a.csv", 1474588801, 0, rowAt "2016-09-23T00:00:01" [] ["0"]⟩] := by
  have htemp : writeSortedTempFiles wholeSeconds someTime someEndpoint reservedColumn =
      some [[⟨"1474588803", "0", "a.csv",
          (rowAt "2016-09-23T00:00:01" [("__time_key", "1474588803")] []).cells⟩],
        [⟨"1474588802", "0", "b.csv", (rowAt "2016-09-23T00:00:02" [] []).cells⟩]] := by
    have ha : fileRows someTime someEndpoint 0 reservedColumn[0] = [⟨0, "a.csv", 1474588801, 0,
        rowAt "2016-09-23T00:00:01" [("__time_key", "1474588803")] []⟩] := by decide
    have hb : fileRows someTime someEndpoint 1 reservedColumn[1] =
        [⟨1, "b.csv", 1474588802, 0, rowAt "2016-09-23T00:00:02" [] []⟩] := by decide
    have hzip : reservedColumn.zipIdx = [(reservedColumn[0], 0), (reservedColumn[1], 1)] := rfl
    rw [writeSortedTempFiles, hzip, List.mapM_cons, List.mapM_cons, List.mapM_nil, ha, hb,
      sortOn_singleton, sortOn_singleton]
    decide
  have hfail : writeSortedTempFiles wholeSeconds someTime someEndpoint cellBeyond = none := by
    have ha : fileRows someTime someEndpoint 0 cellBeyond[0] =
        [⟨0, "a.csv", 1474588801, 0, rowAt "2016-09-23T00:00:01" [] ["0"]⟩] := by decide
    have hzip : cellBeyond.zipIdx = [(cellBeyond[0], 0)] := rfl
    rw [writeSortedTempFiles, hzip, List.mapM_cons, ha, sortOn_singleton]
    rfl
  refine ⟨⟨?_, ?_⟩, ?_, by decide⟩
  · rw [mergeFlows, htemp]
    decide
  · exact (eq_sortOn (eligibleRows_keys wholeSeconds _) (by decide) (by decide)).symm
  · rw [mergeFlows, hfail]
    rfl

end Example

end BlockEmulator
