import BlockEmulator.QueueLedger
import BlockEmulator.Slices
import BlockEmulator.StepSystem
import BlockEmulator.TxPool

/-!
# The queue in memory (`core/txpool.go`, `DeleteElementsInList`)

`TxPool` has the queue as a list of its own. In the source it is a slice: packing reslices
it, so that a batch and what is left share an array; an append may write behind it in
place; head insertion takes over the array of the caller; `RemoveTxs` and
`DeleteElementsInList` compact a list inside the array it is read from and clear what is
behind.

* `refines` — what each operation does to the contents is what `TxPool` says.
* `deleteElementsInList_eq`, `removeTxs_memory` — the compactions, with all they write.
* `accounted` — the account of the queue over whole runs.
-/

namespace BlockEmulator

open Slices StepSystem QueueLedger

/-- `*core.Transaction`. -/
abbrev TxPointer : Type := Option Transaction

/-- `core.TxPool` in memory, without the relay pool. -/
structure SlicePool where
  /-- the arrays, the pool's and the callers' -/
  memory : Memory TxPointer
  /-- `TxQueue` -/
  txQueue : Slice

namespace SlicePool

/-- What is queued. -/
def queue (pool : SlicePool) : List TxPointer := contents pool.memory pool.txQueue

/-- `NewTxPool`. -/
def newTxPool (m : Memory TxPointer) : SlicePool :=
  ⟨(alloc none m [] 0).1, (alloc none m [] 0).2⟩

/-- The pool with another memory and queue. -/
def ofPair (r : Memory TxPointer × Slice) : SlicePool := ⟨r.1, r.2⟩

section Operations

variable (grow : ℕ → ℕ → ℕ)

/-- `AddTx2Pool`: panics on a nil transaction. -/
def addTx2Pool (pool : SlicePool) (tx : TxPointer) : Option SlicePool :=
  tx.map fun tx => ofPair (append none grow pool.memory pool.txQueue [some tx])

/-- One round of `AddTxs2Pool`: the transaction is read when its turn comes. -/
def addTxs2PoolRound (txs : Slice) (r : SlicePool × List TxPointer) (i : ℕ) :
    Option (SlicePool × List TxPointer) :=
  (read r.1.memory txs i).bind fun tx =>
    (addTx2Pool grow r.1 tx).map fun pool => (pool, r.2 ++ [tx])

/-- `AddTxs2Pool`, and the transactions the loop went over. -/
def addTxs2Pool (pool : SlicePool) (txs : Slice) : Option (SlicePool × List TxPointer) :=
  (List.range txs.len).foldlM (addTxs2PoolRound grow txs) (pool, [])

/-- `AddTxs2Pool_Head`. -/
def addTxs2PoolHead (pool : SlicePool) (tx : Slice) : SlicePool :=
  ofPair (append none grow pool.memory tx pool.queue)

/-- `txpool.TxQueue[:txNum]` and the pool with `txpool.TxQueue[txNum:]`. -/
def cut (pool : SlicePool) (txNum : ℕ) : Slice × SlicePool :=
  (pool.txQueue.to txNum, { pool with txQueue := pool.txQueue.from txNum })

/-- `PackTxs`. -/
def packTxs (pool : SlicePool) (maxTxs : ℕ) : Slice × SlicePool :=
  pool.cut (if pool.txQueue.len < maxTxs then pool.txQueue.len else maxTxs)

/-- The loop of `PackTxsWithBytes`, with the rounds that are left. -/
def packLoop (maxBytes : ℤ) : ℕ → ℕ → ℤ → ℕ
  | 0, txIdx, _ => txIdx
  | n + 1, txIdx, currentSize =>
    if currentSize + TxPool.sizeofTransaction > maxBytes then txIdx
    else packLoop maxBytes n (txIdx + 1) (currentSize + TxPool.sizeofTransaction)

/-- `PackTxsWithBytes`. -/
def packTxsWithBytes (pool : SlicePool) (maxBytes : ℤ) : Slice × SlicePool :=
  pool.cut (packLoop maxBytes pool.txQueue.len 0 0)

/-- One round of `RemoveTxs`. -/
def removeRound (committed : Bytes → Bool) (txQueue : Slice) (r : Memory TxPointer × Slice)
    (i : ℕ) : Memory TxPointer × Slice :=
  match read r.1 txQueue i with
  | some (some tx) =>
    if committed tx.txHash then r else append none grow r.1 r.2 [some tx]
  | _ => r

/-- `RemoveTxs`. -/
def removeTxs (pool : SlicePool) (txs : Slice) : SlicePool :=
  if txs.len = 0 ∨ pool.txQueue.len = 0 then pool
  else
    let committed := TxPool.committedHash (contents pool.memory txs)
    let r := (List.range pool.txQueue.len).foldl (removeRound grow committed pool.txQueue)
      (pool.memory, pool.txQueue.to 0)
    ⟨clearFrom none r.1 pool.txQueue r.2.len, r.2⟩

end Operations

/-- One round of `DeleteElementsInList`: the memory, `left` and `removedCnt`. -/
def deleteRound (removed : Bytes → Bool) (list : Slice) (r : Memory TxPointer × ℕ × ℕ)
    (right : ℕ) : Option (Memory TxPointer × ℕ × ℕ) :=
  (read r.1 list right).bind fun p => p.map fun tx =>
    if removed tx.txHash then (r.1, r.2.1, r.2.2 + 1)
    else (store r.1 list r.2.1 (some tx), r.2.1 + 1, r.2.2)

/-- `DeleteElementsInList`: panics on a nil entry. -/
def deleteElementsInList (m : Memory TxPointer) (list elements : Slice) :
    Option (Memory TxPointer × Slice) :=
  (derefAll (contents m elements)).bind fun txs =>
    ((List.range list.len).foldlM
      (deleteRound (fun h => txs.any fun tx => tx.txHash = h) list) (m, 0, 0)).map fun r =>
        let newLength := list.len - r.2.2
        (clearFrom none r.1 list newLength, list.to newLength)

/-! ## The compactions -/

/-- What `RemoveTxs` keeps. -/
def keeps (committed : Bytes → Bool) : TxPointer → Bool
  | none => false
  | some tx => !committed tx.txHash

/-- The rounds of `RemoveTxs` compact the queue. -/
theorem removeRounds_compacted (grow : ℕ → ℕ → ℕ) (committed : Bytes → Bool)
    {m : Memory TxPointer} {q : Slice} (hq : q.Valid m) {i : ℕ} (hi : i ≤ q.len) :
    ∃ m' left, Compacted (keeps committed) m q i m' left ∧
      (List.range i).foldl (removeRound grow committed q) (m, q.to 0) = (m', q.to left) := by
  induction i with
  | zero => exact ⟨m, 0, Compacted.start m q, rfl⟩
  | succ i ih =>
    obtain ⟨m', left, hinv, hrun⟩ := ih (by omega)
    have hlt : i < q.len := by omega
    have hle := hinv.left_le
    have hq' := hinv.valid hq hlt
    rw [List.range_succ, List.foldl_append, hrun, List.foldl_cons, List.foldl_nil]
    obtain ⟨p, hread⟩ := exists_read hq' hlt
    rcases p with _ | tx
    · refine ⟨m', left, hinv.skip hq hlt hread rfl, ?_⟩
      rw [removeRound, hread]
    · cases hc : committed tx.txHash with
      | true =>
        refine ⟨m', left, hinv.skip hq hlt hread (by rw [keeps, hc]; rfl), ?_⟩
        rw [removeRound, hread]
        exact if_pos hc
      | false =>
        refine ⟨_, left + 1, hinv.kept hq hlt hread (by rw [keeps, hc]; rfl), ?_⟩
        have hroom : left + 1 ≤ q.cap := by
          have := hq.len_le
          omega
        rw [removeRound, hread]
        refine (if_neg (by rw [hc]; exact Bool.false_ne_true)).trans ?_
        exact append_one_of_room none grow _ (hq'.to (n := left) (by omega)) hroom

/-- The rounds of `DeleteElementsInList` compact the list. -/
theorem deleteRounds_compacted (removed : Bytes → Bool) {m : Memory TxPointer} {list : Slice}
    (hl : list.Valid m) {txs : List Transaction} (htxs : contents m list = txs.map some)
    {i : ℕ} (hi : i ≤ list.len) :
    ∃ m' left, Compacted (keeps removed) m list i m' left ∧
      (List.range i).foldlM (deleteRound removed list) (m, 0, 0) =
        some (m', left, i - left) := by
  induction i with
  | zero => exact ⟨m, 0, Compacted.start m list, rfl⟩
  | succ i ih =>
    obtain ⟨m', left, hinv, hrun⟩ := ih (by omega)
    have hlt : i < list.len := by omega
    have hle := hinv.left_le
    obtain ⟨tx, hread⟩ : ∃ tx, read m' list i = some (some tx) := by
      have hlen := length_contents hl
      rw [htxs, List.length_map] at hlen
      refine ⟨txs[i], ?_⟩
      rw [hinv.read_eq hl hlt, htxs, List.getElem?_map, List.getElem?_eq_getElem (by omega)]
      rfl
    rw [List.range_succ, List.foldlM_append, hrun]
    cases hc : removed tx.txHash with
    | true =>
      refine ⟨m', left, hinv.skip hl hlt hread (by rw [keeps, hc]; rfl), ?_⟩
      have hcount : i - left + 1 = i + 1 - left := by omega
      simp [deleteRound, hread, hc, hcount]
    | false =>
      refine ⟨_, left + 1, hinv.kept hl hlt hread (by rw [keeps, hc]; rfl), ?_⟩
      simp [deleteRound, hread, hc]

/-- A window compacted and cleared: the memory, and how much is kept. -/
theorem clear_compacted {keeps : TxPointer → Bool} {m m' : Memory TxPointer} {s : Slice}
    (hs : s.Valid m) {left : ℕ} (h : Compacted keeps m s s.len m' left) :
    clearFrom none m' s left =
        replace m s ((contents m s).filter keeps ++ List.replicate (s.len - left) none) ∧
      left = ((contents m s).filter keeps).length := by
  have hlen := length_contents hs
  have hle := h.left_le
  have hall : (contents m s).take s.len = contents m s :=
    List.take_of_length_le (Nat.le_of_eq hlen)
  have hleft := h.left_eq
  rw [hall] at hleft
  have hwindow : ((contents m s).filter keeps ++ (contents m s).drop left).length = s.len := by
    rw [List.length_append, ← hleft, List.length_drop, hlen]
    omega
  have hm := h.memory_eq
  rw [hall] at hm
  refine ⟨?_, hleft⟩
  rw [hm, clearFrom_eq none (hs.replace hs hwindow) hle, contents_replace hs hwindow,
    replace_replace hs hwindow, List.take_left' hleft.symm]

/-- **`RemoveTxs` in memory**: the queue is filtered in its window, and what is behind the
kept ones is cleared. -/
theorem removeTxs_memory (grow : ℕ → ℕ → ℕ) {pool : SlicePool} {txs : Slice}
    (hq : pool.txQueue.Valid pool.memory) (htxs : txs.len ≠ 0) (hlen : pool.txQueue.len ≠ 0) :
    let kept := pool.queue.filter
      (keeps (TxPool.committedHash (contents pool.memory txs)))
    pool.removeTxs grow txs =
      ⟨replace pool.memory pool.txQueue
          (kept ++ List.replicate (pool.txQueue.len - kept.length) none),
        pool.txQueue.to kept.length⟩ := by
  intro kept
  obtain ⟨m', left, hinv, hrun⟩ := removeRounds_compacted grow
    (TxPool.committedHash (contents pool.memory txs)) hq (Nat.le_refl _)
  obtain ⟨hclear, hleft⟩ := clear_compacted hq hinv
  have hkept : left = kept.length := hleft
  rw [removeTxs, if_neg (not_or.mpr ⟨htxs, hlen⟩)]
  dsimp only
  rw [hrun]
  simp only [Slice.to]
  rw [hclear, hkept]
  rfl

/-- **`DeleteElementsInList` in memory.** -/
theorem deleteElementsInList_eq {m : Memory TxPointer} {list elements : Slice}
    (hl : list.Valid m) {txs gone : List Transaction} (htxs : contents m list = txs.map some)
    (hgone : contents m elements = gone.map some) :
    let kept := (contents m list).filter (keeps fun h => gone.any fun tx => tx.txHash = h)
    deleteElementsInList m list elements =
      some (replace m list (kept ++ List.replicate (list.len - kept.length) none),
        list.to kept.length) := by
  intro kept
  obtain ⟨m', left, hinv, hrun⟩ := deleteRounds_compacted
    (fun h => gone.any fun tx => tx.txHash = h) hl htxs (Nat.le_refl _)
  obtain ⟨hclear, hleft⟩ := clear_compacted hl hinv
  have hle := hinv.left_le
  have hkept : left = kept.length := hleft
  have hcount : list.len - (list.len - left) = left := by omega
  rw [deleteElementsInList, hgone, derefAll_map_some, Option.bind_some, hrun, Option.map_some]
  dsimp only
  rw [hcount, hclear, hkept]

/-- How memory stands after a removal from a list: what is returned, what is cleared
behind it, and what is left alone. -/
structure Swept (m m' : Memory TxPointer) (list : Slice) (kept : List Transaction) : Prop where
  returned : contents m' (list.to kept.length) = kept.map some
  cleared : contents m' (list.from kept.length) = List.replicate (list.len - kept.length) none
  apart : (list.to kept.length).off + (list.to kept.length).len ≤ (list.from kept.length).off
  frame : ∀ t : Slice, t.Valid m →
    (t.array ≠ list.array ∨ t.off + t.len ≤ list.off ∨ list.off + list.len ≤ t.off) →
    contents m' t = contents m t

/-- The transactions whose hash is not among the removed ones. -/
def others (gone txs : List Transaction) : List Transaction :=
  txs.filter fun tx => !(gone.map Transaction.txHash).contains tx.txHash

theorem filter_keeps_map_some {p : Bytes → Bool} {gone : List Transaction}
    (h : ∀ b, p b = true ↔ b ∈ gone.map Transaction.txHash) (txs : List Transaction) :
    (txs.map some).filter (keeps p) = (others gone txs).map some := by
  rw [List.filter_map, others]
  congr 1
  refine List.filter_congr fun tx _ => ?_
  rw [Function.comp_apply, keeps]
  cases hp : p tx.txHash with
  | true => simpa using (h _).mp hp
  | false =>
    have hnot : tx.txHash ∉ gone.map Transaction.txHash := fun hmem =>
      Bool.false_ne_true (hp.symm.trans ((h _).mpr hmem))
    simpa using hnot

/-- A window rewritten by its kept elements and cleared cells is swept. -/
theorem swept_replace {m : Memory TxPointer} {list : Slice} (hl : list.Valid m)
    {kept : List Transaction} (hk : kept.length ≤ list.len) :
    Swept m (replace m list (kept.map some ++ List.replicate (list.len - kept.length) none))
      list kept := by
  have hlen : (kept.map some ++ List.replicate (list.len - kept.length) none).length =
      list.len := by
    rw [List.length_append, List.length_map, List.length_replicate]
    omega
  refine ⟨?_, ?_, Nat.le_refl _, fun t ht hapart => ?_⟩
  · rw [contents_to _ _ hk, contents_replace hl hlen,
      List.take_left' (List.length_map some)]
  · rw [contents_from, contents_replace hl hlen, List.drop_left' (List.length_map some)]
  · by_cases harray : list.array = t.array
    · exact replace_disjoint hl harray (hapart.resolve_left fun h => h harray.symm) hlen
    · exact contents_replace_ne harray _

theorem length_others_le (gone txs : List Transaction) :
    (others gone txs).length ≤ txs.length :=
  List.length_filter_le _ _

theorem deleteElementsInList_swept {m : Memory TxPointer} {list elements : Slice}
    (hl : list.Valid m) {txs gone : List Transaction} (htxs : contents m list = txs.map some)
    (hgone : contents m elements = gone.map some) :
    ∃ m', deleteElementsInList m list elements =
        some (m', list.to (others gone txs).length) ∧
      Swept m m' list (others gone txs) := by
  have hlen := length_contents hl
  have hle := length_others_le gone txs
  rw [htxs, List.length_map] at hlen
  have hkept : (contents m list).filter (keeps fun h => gone.any fun tx => tx.txHash = h) =
      (others gone txs).map some := by
    rw [htxs, filter_keeps_map_some fun b => ?_]
    simp
  refine ⟨_, ?_, swept_replace hl (by omega)⟩
  rw [deleteElementsInList_eq hl htxs hgone, hkept, List.length_map]

theorem removeTxs_swept (grow : ℕ → ℕ → ℕ) {m : Memory TxPointer} {list elements : Slice}
    (hl : list.Valid m) (he : elements.Valid m) {txs gone : List Transaction}
    (htxs : contents m list = txs.map some) (hgone : contents m elements = gone.map some) :
    ∃ m', removeTxs grow ⟨m, list⟩ elements =
        ⟨m', list.to (others gone txs).length⟩ ∧
      Swept m m' list (others gone txs) := by
  have hlen := length_contents hl
  have hle := length_others_le gone txs
  rw [htxs, List.length_map] at hlen
  have hkept : (contents m list).filter (keeps (TxPool.committedHash (contents m elements))) =
      (others gone txs).map some := by
    rw [htxs, filter_keeps_map_some fun b => ?_]
    rw [TxPool.committedHash_eq_true, hgone]
    simp
  by_cases hempty : elements.len = 0 ∨ list.len = 0
  · -- nothing to remove, or nothing to remove from: the pool is returned as it is
    have hall : others gone txs = txs := by
      refine List.filter_eq_self.mpr fun tx htx => ?_
      rcases hempty with h | h
      · have hnone := length_contents he
        rw [h, hgone, List.length_map] at hnone
        simp [List.length_eq_zero_iff.mp hnone]
      · rw [h] at hlen
        rw [List.length_eq_zero_iff.mp hlen] at htx
        cases htx
    refine ⟨replace m list ((others gone txs).map some ++
      List.replicate (list.len - (others gone txs).length) none), ?_,
      swept_replace hl (by omega)⟩
    rw [removeTxs, if_pos hempty, hall, hlen, Nat.sub_self, List.replicate_zero,
      List.append_nil, ← htxs, replace_contents]
    rfl
  · obtain ⟨h₁, h₂⟩ := not_or.mp hempty
    refine ⟨_, ?_, swept_replace hl (by omega)⟩
    have hrun : removeTxs grow ⟨m, list⟩ elements = _ := removeTxs_memory grow hl h₁ h₂
    rw [hrun]
    simp only [queue]
    rw [hkept, List.length_map]

theorem count_others (gone txs : List Transaction) (tx : Transaction) :
    (others gone txs).count tx =
      if tx.txHash ∈ gone.map Transaction.txHash then 0 else txs.count tx := by
  by_cases h : tx.txHash ∈ gone.map Transaction.txHash
  · rw [if_pos h]
    refine List.count_eq_zero_of_not_mem fun hmem => ?_
    have hkept := (List.mem_filter.mp hmem).2
    rw [List.contains_iff_mem.mpr h] at hkept
    cases hkept
  · rw [if_neg h]
    exact List.count_filter (by simpa using h)

/-- **In-place removal is a stable filter**: what either function returns is the other
transactions in their order, the copies of one transaction kept or removed together; the
cells behind are cleared and apart from it, and no others are written. -/
theorem removal_is_filter {m : Memory TxPointer} {list elements : Slice} (hl : list.Valid m)
    (he : elements.Valid m) {txs gone : List Transaction} (htxs : contents m list = txs.map some)
    (hgone : contents m elements = gone.map some) :
    (∃ m', deleteElementsInList m list elements =
        some (m', list.to (others gone txs).length) ∧ Swept m m' list (others gone txs)) ∧
      (∀ grow, ∃ m', removeTxs grow ⟨m, list⟩ elements =
        ⟨m', list.to (others gone txs).length⟩ ∧ Swept m m' list (others gone txs)) ∧
      ∀ tx, (others gone txs).count tx =
        if tx.txHash ∈ gone.map Transaction.txHash then 0 else txs.count tx :=
  ⟨deleteElementsInList_swept hl htxs hgone, fun grow => removeTxs_swept grow hl he htxs hgone,
    count_others gone txs⟩

/-- A window in the middle of an array, with one transaction that comes twice. -/
theorem removal_is_filter_twice :
    let a := newTransaction "a" "b" 1 0 [1]
    let b := newTransaction "a" "b" 1 1 [2]
    let m : Memory TxPointer := [[some b, some a, some b, some a, none], [some a]]
    others [a] [a, b, a] = [b] ∧
      ∃ m', deleteElementsInList m ⟨0, 1, 3, 4⟩ ⟨1, 0, 1, 1⟩ = some (m', ⟨0, 1, 1, 4⟩) := by
  intro a b m
  have hkept : others [a] [a, b, a] = [b] := by decide
  have hlist : contents m ⟨0, 1, 3, 4⟩ = [a, b, a].map some := rfl
  have helements : contents m ⟨1, 0, 1, 1⟩ = [a].map some := rfl
  obtain ⟨⟨m', hrun, -⟩, -⟩ := removal_is_filter (by decide) (by decide) hlist helements
  exact ⟨hkept, m', by rw [hrun, hkept]; rfl⟩

/-! ## What the operations do to what is queued -/

section Refinement

variable {grow : ℕ → ℕ → ℕ} {pool pool' : SlicePool}

theorem addTx2Pool_eq_some {tx : TxPointer} (hq : pool.txQueue.Valid pool.memory)
    (h : addTx2Pool grow pool tx = some pool') :
    pool'.queue = pool.queue ++ [tx] ∧ pool'.txQueue.Valid pool'.memory := by
  rcases tx with _ | tx
  · cases h
  · obtain rfl := Option.some.inj h
    exact ⟨contents_append hq _, append_valid hq _⟩

/-- What the rounds of `AddTxs2Pool` went over is what they appended. -/
theorem addTxs2PoolRounds_eq_some {txs : Slice} {is : List ℕ} {r r' : SlicePool × List TxPointer}
    (hq : r.1.txQueue.Valid r.1.memory)
    (h : is.foldlM (addTxs2PoolRound grow txs) r = some r') :
    (∃ new, r'.2 = r.2 ++ new ∧ r'.1.queue = r.1.queue ++ new) ∧
      r'.1.txQueue.Valid r'.1.memory := by
  induction is generalizing r with
  | nil =>
    obtain rfl := Option.some.inj h
    exact ⟨⟨[], by simp, by simp⟩, hq⟩
  | cons i is ih =>
    rw [List.foldlM_cons] at h
    obtain ⟨r₁, h₁, hrest⟩ := Option.bind_eq_some_iff.mp h
    obtain ⟨tx, -, hadd⟩ := Option.bind_eq_some_iff.mp h₁
    obtain ⟨pool₁, hpool, rfl⟩ := Option.map_eq_some_iff.mp hadd
    obtain ⟨hqueue, hvalid⟩ := addTx2Pool_eq_some hq hpool
    obtain ⟨⟨new, hnew, hqueue'⟩, hvalid'⟩ := ih hvalid hrest
    refine ⟨⟨tx :: new, ?_, ?_⟩, hvalid'⟩
    · rw [hnew, List.append_assoc, List.singleton_append]
    · rw [hqueue', hqueue, List.append_assoc, List.singleton_append]

theorem addTxs2Pool_eq_some {txs : Slice} {added : List TxPointer}
    (hq : pool.txQueue.Valid pool.memory) (h : addTxs2Pool grow pool txs = some (pool', added)) :
    pool'.queue = pool.queue ++ added ∧ pool'.txQueue.Valid pool'.memory := by
  obtain ⟨⟨new, hnew, hqueue⟩, hvalid⟩ := addTxs2PoolRounds_eq_some hq h
  have hadded : added = new := hnew
  rw [hadded]
  exact ⟨hqueue, hvalid⟩

/-- The rounds of `AddTxs2Pool` leave an argument in an array of its own as it is. -/
theorem addTxs2PoolRounds_apart {txs : Slice} (hq : pool.txQueue.Valid pool.memory)
    (ht : txs.Valid pool.memory) (hne : pool.txQueue.array ≠ txs.array) {ts : List Transaction}
    (hts : contents pool.memory txs = ts.map some) {k : ℕ} (hk : k ≤ ts.length) :
    ∃ p : SlicePool, p.txQueue.Valid p.memory ∧ txs.Valid p.memory ∧
      p.txQueue.array ≠ txs.array ∧ contents p.memory txs = ts.map some ∧
      (List.range k).foldlM (addTxs2PoolRound grow txs) (pool, []) =
        some (p, (ts.take k).map some) := by
  induction k with
  | zero => exact ⟨pool, hq, ht, hne, hts, rfl⟩
  | succ k ih =>
    obtain ⟨p, hp, htp, hnep, hcontents, hrun⟩ := ih (by omega)
    have hread : read p.memory txs k = some (some ts[k]) := by
      rw [Slices.read, hcontents, List.getElem?_map, List.getElem?_eq_getElem hk, Option.map_some]
    have htake : (ts.take (k + 1)).map some = (ts.take k).map some ++ [some ts[k]] := by
      rw [List.take_succ_eq_append_getElem hk, List.map_append, List.map_singleton]
    refine ⟨ofPair (append none grow p.memory p.txQueue [some ts[k]]), append_valid hp _,
      hp.append htp _, append_array_ne htp hnep _,
      (contents_append_ne htp hnep _).trans hcontents, ?_⟩
    rw [List.range_succ, List.foldlM_append, hrun, htake]
    simp only [Option.bind_eq_bind, Option.bind_some, List.foldlM_cons, List.foldlM_nil,
      addTxs2PoolRound, hread, addTx2Pool, Option.map_some]
    rfl

/-- An argument in an array of its own is read as it was handed over. -/
theorem addTxs2Pool_apart {txs : Slice} (hq : pool.txQueue.Valid pool.memory)
    (ht : txs.Valid pool.memory) (hne : pool.txQueue.array ≠ txs.array) {ts : List Transaction}
    (hts : contents pool.memory txs = ts.map some) :
    ∃ pool', addTxs2Pool grow pool txs = some (pool', ts.map some) := by
  have hlen := length_contents ht
  rw [hts, List.length_map] at hlen
  obtain ⟨p, -, -, -, -, hrun⟩ := addTxs2PoolRounds_apart hq ht hne hts (Nat.le_refl _)
  refine ⟨p, ?_⟩
  rw [addTxs2Pool, ← hlen, hrun, List.take_length]

theorem addTxs2PoolHead_queue (grow : ℕ → ℕ → ℕ) (pool : SlicePool) {tx : Slice}
    (ht : tx.Valid pool.memory) :
    (addTxs2PoolHead grow pool tx).queue = contents pool.memory tx ++ pool.queue ∧
      (addTxs2PoolHead grow pool tx).txQueue.Valid (addTxs2PoolHead grow pool tx).memory :=
  ⟨contents_append ht _, append_valid ht _⟩

theorem cut_queue (hq : pool.txQueue.Valid pool.memory) {n : ℕ} (hn : n ≤ pool.txQueue.len) :
    contents (pool.cut n).2.memory (pool.cut n).1 = pool.queue.take n ∧
      (pool.cut n).2.queue = pool.queue.drop n ∧
      (pool.cut n).2.txQueue.Valid (pool.cut n).2.memory :=
  ⟨contents_to _ _ hn, contents_from _ _ _, hq.from hn⟩

/-- How many transactions the byte bound admits. -/
theorem packLoop_eq (maxBytes : ℤ) (n txIdx : ℕ) :
    packLoop maxBytes n txIdx (TxPool.sizeofTransaction * txIdx) =
      max txIdx (min (txIdx + n) (maxBytes.toNat / TxPool.sizeofTransaction)) := by
  have hsize : TxPool.sizeofTransaction = 184 := rfl
  induction n generalizing txIdx with
  | zero =>
    rw [packLoop]
    omega
  | succ n ih =>
    rw [packLoop]
    split
    · next h => rw [hsize] at h ⊢; omega
    · next h =>
      have hnext : (TxPool.sizeofTransaction * txIdx + TxPool.sizeofTransaction : ℤ) =
          TxPool.sizeofTransaction * (txIdx + 1 : ℕ) := by
        rw [Int.natCast_add, Int.mul_add, Int.natCast_one, Int.mul_one]
      rw [hnext, ih]
      rw [hsize] at h ⊢
      omega

theorem packLoop_start (maxBytes : ℤ) (n : ℕ) :
    packLoop maxBytes n 0 0 = min n (maxBytes.toNat / TxPool.sizeofTransaction) := by
  have h := packLoop_eq maxBytes n 0
  rw [Int.natCast_zero, Int.mul_zero, Nat.zero_add, Nat.zero_max] at h
  exact h

theorem packTxs_eq (maxTxs : ℕ) : pool.packTxs maxTxs = pool.cut (min pool.txQueue.len maxTxs) := by
  rw [packTxs]
  congr 1
  split <;> omega

theorem packTxsWithBytes_eq (maxBytes : ℤ) :
    pool.packTxsWithBytes maxBytes =
      pool.cut (min pool.txQueue.len (maxBytes.toNat / TxPool.sizeofTransaction)) := by
  rw [packTxsWithBytes, packLoop_start]

/-- What stays in the queue when a body is removed; without a body, nil pointers stay too. -/
def stays (body : List TxPointer) (p : TxPointer) : Bool :=
  body.isEmpty || keeps (TxPool.committedHash body) p

theorem removeTxs_queue (grow : ℕ → ℕ → ℕ) {txs : Slice} (hq : pool.txQueue.Valid pool.memory)
    (ht : txs.Valid pool.memory) :
    (pool.removeTxs grow txs).queue = pool.queue.filter (stays (contents pool.memory txs)) ∧
      (pool.removeTxs grow txs).txQueue.Valid (pool.removeTxs grow txs).memory := by
  have hqlen := length_contents hq
  have htlen := length_contents ht
  by_cases hempty : txs.len = 0 ∨ pool.txQueue.len = 0
  · rw [removeTxs, if_pos hempty]
    refine ⟨(List.filter_eq_self.mpr fun p hp => ?_).symm, hq⟩
    rcases hempty with h | h
    · rw [h] at htlen
      rw [stays, List.length_eq_zero_iff.mp htlen]
      rfl
    · rw [h] at hqlen
      rw [queue, List.length_eq_zero_iff.mp hqlen] at hp
      cases hp
  · obtain ⟨h₁, h₂⟩ := not_or.mp hempty
    have hbody : (contents pool.memory txs).isEmpty = false := by
      rw [List.isEmpty_eq_false_iff, ← List.length_pos_iff]
      omega
    have hstays : stays (contents pool.memory txs) =
        keeps (TxPool.committedHash (contents pool.memory txs)) := by
      funext p
      rw [stays, hbody, Bool.false_or]
    have hle : (pool.queue.filter (stays (contents pool.memory txs))).length ≤
        pool.txQueue.len := by
      rw [← hqlen]
      exact List.length_filter_le _ _
    have hwindow : (pool.queue.filter (stays (contents pool.memory txs)) ++
        List.replicate (pool.txQueue.len -
          (pool.queue.filter (stays (contents pool.memory txs))).length) none).length =
        pool.txQueue.len := by
      rw [List.length_append, List.length_replicate]
      omega
    rw [removeTxs_memory grow hq h₁ h₂, ← hstays]
    constructor
    · rw [queue, contents_to _ _ hle, contents_replace hq hwindow, List.take_left' rfl]
    · exact (hq.replace hq hwindow).to (hle.trans hq.len_le)

end Refinement

end SlicePool

/-! ## The account of the queue over whole runs -/

/-- What is done to the pool, and what its callers do to memory. -/
inductive PoolOp
  /-- `AddTx2Pool` -/
  | addTx2Pool (tx : TxPointer)
  /-- `AddTxs2Pool` -/
  | addTxs2Pool (txs : Slice)
  /-- `AddTxs2Pool_Head` -/
  | addTxs2PoolHead (tx : Slice)
  /-- `PackTxs` -/
  | packTxs (maxTxs : ℕ)
  /-- `PackTxsWithBytes` -/
  | packTxsWithBytes (maxBytes : ℤ)
  /-- `RemoveTxs` -/
  | removeTxs (txs : Slice)
  /-- new arrays and other writes, none of them to what is queued -/
  | callers (m : Memory TxPointer)

/-- A pool with the history of its transactions. -/
structure PoolRun where
  /-- the pool -/
  pool : SlicePool
  /-- what was added, in the order of the calls -/
  added : List TxPointer
  /-- the batches packed, one after another -/
  packed : List TxPointer
  /-- what `RemoveTxs` took out -/
  removed : List TxPointer
  /-- the same with numbers -/
  ledger : Ledger TxPointer

namespace PoolRun

/-- A new pool. -/
def start (m : Memory TxPointer) : PoolRun := ⟨SlicePool.newTxPool m, [], [], [], .empty⟩

/-- Transactions have come in at the tail. -/
def joinTail (s : PoolRun) (pool : SlicePool) (txs : List TxPointer) : PoolRun :=
  { s with pool := pool, added := s.added ++ txs, ledger := s.ledger.joinTail txs }

/-- A batch has been packed. -/
def pack (s : PoolRun) (r : Slice × SlicePool) : PoolRun :=
  { s with
    pool := r.2
    packed := s.packed ++ contents r.2.memory r.1
    ledger := s.ledger.pack r.1.len }

/-- One operation; `none` is a panic. -/
def step (grow : ℕ → ℕ → ℕ) (s : PoolRun) : PoolOp → Option PoolRun
  | .addTx2Pool tx => (s.pool.addTx2Pool grow tx).map fun pool => s.joinTail pool [tx]
  | .addTxs2Pool txs => (s.pool.addTxs2Pool grow txs).map fun r => s.joinTail r.1 r.2
  | .addTxs2PoolHead tx =>
    some
      { s with
        pool := s.pool.addTxs2PoolHead grow tx
        added := s.added ++ contents s.pool.memory tx
        ledger := s.ledger.joinHead (contents s.pool.memory tx) }
  | .packTxs maxTxs => some (s.pack (s.pool.packTxs maxTxs))
  | .packTxsWithBytes maxBytes => some (s.pack (s.pool.packTxsWithBytes maxBytes))
  | .removeTxs txs =>
    let stays := SlicePool.stays (contents s.pool.memory txs)
    some
      { s with
        pool := s.pool.removeTxs grow txs
        removed := s.removed ++ s.pool.queue.filter fun p => !stays p
        ledger := s.ledger.thin stays }
  | .callers m => some { s with pool := { s.pool with memory := m } }

/-- The arguments are slices of memory; callers do not write to what is queued. -/
def Admissible (s : PoolRun) : PoolOp → Prop
  | .addTxs2Pool txs | .addTxs2PoolHead txs | .removeTxs txs => txs.Valid s.pool.memory
  | .callers m => s.pool.txQueue.Valid m ∧ contents m s.pool.txQueue = s.pool.queue
  | _ => True

instance (s : PoolRun) (op : PoolOp) : Decidable (s.Admissible op) :=
  match op with
  | .addTxs2Pool txs | .addTxs2PoolHead txs | .removeTxs txs =>
    inferInstanceAs (Decidable (txs.Valid s.pool.memory))
  | .callers m =>
    inferInstanceAs (Decidable (s.pool.txQueue.Valid m ∧
      contents m s.pool.txQueue = s.pool.queue))
  | .addTx2Pool _ | .packTxs _ | .packTxsWithBytes _ => inferInstanceAs (Decidable True)

/-- The account is balanced and is that of the queue and of the history. -/
structure Accounted (s : PoolRun) : Prop where
  valid : s.pool.txQueue.Valid s.pool.memory
  queue_eq : s.ledger.queue.map Slot.item = s.pool.queue
  added_eq : s.ledger.added.map Slot.item = s.added
  packed_eq : s.ledger.packed.map Slot.item = s.packed
  removed_eq : s.ledger.removed.map Slot.item = s.removed
  balanced : s.ledger.Balanced

theorem accounted_start (m : Memory TxPointer) : (start m).Accounted where
  valid := alloc_valid _ _ _ _
  queue_eq := (contents_alloc _ _ _ _).symm
  added_eq := rfl
  packed_eq := rfl
  removed_eq := rfl
  balanced := Ledger.balanced_empty

variable {s t : PoolRun}

theorem Accounted.joinTail (h : s.Accounted) {pool : SlicePool} {txs : List TxPointer}
    (hqueue : pool.queue = s.pool.queue ++ txs) (hvalid : pool.txQueue.Valid pool.memory) :
    (s.joinTail pool txs).Accounted where
  valid := hvalid
  queue_eq := by
    simp only [PoolRun.joinTail, Ledger.joinTail]
    rw [List.map_append, h.queue_eq, map_item_slots, hqueue]
  added_eq := by
    simp only [PoolRun.joinTail, Ledger.joinTail]
    rw [List.map_append, h.added_eq, map_item_slots]
  packed_eq := h.packed_eq
  removed_eq := h.removed_eq
  balanced := h.balanced.joinTail txs

theorem Accounted.pack (h : s.Accounted) {n : ℕ} (hn : n ≤ s.pool.txQueue.len) :
    (s.pack (s.pool.cut n)).Accounted := by
  obtain ⟨hbatch, hrest, hvalid⟩ := SlicePool.cut_queue h.valid hn
  refine ⟨hvalid, ?_, h.added_eq, ?_, h.removed_eq, h.balanced.pack _⟩
  · have hqueue : (s.ledger.pack n).queue.map Slot.item = s.pool.queue.drop n := by
      rw [Ledger.pack, List.map_drop, h.queue_eq]
    exact hqueue.trans hrest.symm
  · have hpacked : (s.ledger.pack n).packed.map Slot.item = s.packed ++ s.pool.queue.take n := by
      rw [Ledger.pack, List.map_append, List.map_take, h.packed_eq, h.queue_eq]
    rw [← hbatch] at hpacked
    exact hpacked

theorem Accounted.thin (h : s.Accounted) (stays : TxPointer → Bool) :
    (s.ledger.thin stays).queue.map Slot.item = s.pool.queue.filter stays ∧
      (s.ledger.thin stays).removed.map Slot.item =
        s.removed ++ s.pool.queue.filter fun p => !stays p := by
  rw [← h.queue_eq, ← h.removed_eq, List.filter_map, List.filter_map, Ledger.thin]
  exact ⟨rfl, List.map_append⟩

theorem Accounted.step {grow : ℕ → ℕ → ℕ} {op : PoolOp} (h : s.Accounted)
    (hop : s.Admissible op) (hs : s.step grow op = some t) : t.Accounted := by
  cases op with
  | addTx2Pool tx =>
    obtain ⟨pool, hpool, rfl⟩ := Option.map_eq_some_iff.mp hs
    obtain ⟨hqueue, hvalid⟩ := SlicePool.addTx2Pool_eq_some h.valid hpool
    exact h.joinTail hqueue hvalid
  | addTxs2Pool txs =>
    obtain ⟨⟨pool, added⟩, hpool, rfl⟩ := Option.map_eq_some_iff.mp hs
    obtain ⟨hqueue, hvalid⟩ := SlicePool.addTxs2Pool_eq_some h.valid hpool
    exact h.joinTail hqueue hvalid
  | addTxs2PoolHead tx =>
    obtain rfl := Option.some.inj hs
    obtain ⟨hqueue, hvalid⟩ := SlicePool.addTxs2PoolHead_queue grow s.pool hop
    refine ⟨hvalid, ?_, ?_, h.packed_eq, h.removed_eq, h.balanced.joinHead _⟩
    · rw [hqueue, ← h.queue_eq]
      exact List.map_append.trans (congrArg (· ++ _) (map_item_slots _ _ _))
    · refine List.map_append.trans ?_
      rw [map_item_slots, h.added_eq]
  | packTxs maxTxs =>
    obtain rfl := Option.some.inj hs
    rw [SlicePool.packTxs_eq]
    exact h.pack (Nat.min_le_left _ _)
  | packTxsWithBytes maxBytes =>
    obtain rfl := Option.some.inj hs
    rw [SlicePool.packTxsWithBytes_eq]
    exact h.pack (Nat.min_le_left _ _)
  | removeTxs txs =>
    obtain rfl := Option.some.inj hs
    obtain ⟨hqueue, hvalid⟩ := SlicePool.removeTxs_queue grow h.valid hop
    obtain ⟨hrest, hgone⟩ := h.thin (SlicePool.stays (contents s.pool.memory txs))
    exact ⟨hvalid, hrest.trans hqueue.symm, h.added_eq, h.packed_eq, hgone, h.balanced.thin _⟩
  | callers m =>
    obtain rfl := Option.some.inj hs
    exact ⟨hop.1, h.queue_eq.trans hop.2.symm, h.added_eq, h.packed_eq, h.removed_eq,
      h.balanced⟩

/-- In every run the account is that of the queue. -/
theorem accounted {grow : ℕ → ℕ → ℕ} {m : Memory TxPointer}
    (h : Reaches (step grow) Admissible (start m) s) : s.Accounted :=
  h.invariant Accounted (accounted_start m) fun _ _ _ hacc hop hs => hacc.step hop hs

/-- A batch is a prefix of the queue, as long as the queue allows up to the bound. -/
def PacksPrefix (pool : SlicePool) (r : Slice × SlicePool) (bound : ℕ) : Prop :=
  contents r.2.memory r.1 ++ r.2.queue = pool.queue ∧
    (contents r.2.memory r.1).length = min pool.queue.length bound

theorem packsPrefix_cut (h : s.Accounted) (bound : ℕ) :
    PacksPrefix s.pool (s.pool.cut (min s.pool.txQueue.len bound)) bound := by
  obtain ⟨hbatch, hrest, -⟩ := SlicePool.cut_queue h.valid
    (Nat.min_le_left s.pool.txQueue.len bound)
  have hlen : s.pool.queue.length = s.pool.txQueue.len := length_contents h.valid
  rw [PacksPrefix, hbatch, hrest, List.take_append_drop, List.length_take, hlen]
  exact ⟨rfl, by omega⟩

/-- **The pool loses and doubles nothing**: in every run, what was added is what was packed,
what was removed and what is still queued; the batch packed next is the prefix of the queue
that the bound prescribes; and of the transactions that came in at the tail, each carrying
the number of its arrival, those packed were packed in that order. -/
theorem pool_conserves {grow : ℕ → ℕ → ℕ} {m : Memory TxPointer}
    (h : Reaches (step grow) Admissible (start m) s) :
    s.added.Perm (s.packed ++ s.removed ++ s.pool.queue) ∧
      (∀ maxTxs, PacksPrefix s.pool (s.pool.packTxs maxTxs) maxTxs) ∧
      (∀ maxBytes : ℤ, PacksPrefix s.pool (s.pool.packTxsWithBytes maxBytes)
        (maxBytes.toNat / TxPool.sizeofTransaction)) ∧
      s.ledger.added.map Slot.item = s.added ∧
      s.ledger.added.map Slot.stamp = List.range s.added.length ∧
      s.ledger.packed.map Slot.item = s.packed ∧
      (s.ledger.packed.filter Slot.tail).Pairwise fun a b => a.stamp < b.stamp := by
  have hacc := accounted h
  refine ⟨?_, fun maxTxs => ?_, fun maxBytes => ?_, hacc.added_eq, ?_, hacc.packed_eq,
    hacc.balanced.packed_ordered⟩
  · rw [← hacc.added_eq, ← hacc.packed_eq, ← hacc.removed_eq, ← hacc.queue_eq]
    exact hacc.balanced.items_perm
  · rw [SlicePool.packTxs_eq]
    exact packsPrefix_cut hacc maxTxs
  · rw [SlicePool.packTxsWithBytes_eq]
    exact packsPrefix_cut hacc _
  · rw [hacc.balanced.stamps, ← hacc.added_eq, List.length_map]

/-- Two transactions come in at the tail, the first again at the head; one batch is packed
by number and one by size, and the last transaction is removed. -/
theorem pool_conserves_run :
    let a := newTransaction "a" "b" 1 0 [1]
    let b := newTransaction "a" "b" 1 1 [2]
    ∃ s : PoolRun, s.packed = [some a, some a] ∧ s.removed = [some b] ∧
      s.added.Perm (s.packed ++ s.removed ++ s.pool.queue) := by
  intro a b
  have hend : (runWith (step fun _ n => n) Admissible (start [[some a, some b]])
      [.addTxs2Pool ⟨0, 0, 2, 2⟩, .addTxs2PoolHead ⟨0, 0, 1, 2⟩, .packTxs 1,
        .packTxsWithBytes 200, .packTxsWithBytes 100, .removeTxs ⟨0, 0, 2, 2⟩]).any
      (fun s => decide (s.packed = [some a, some a] ∧ s.removed = [some b])) = true := by
    decide
  obtain ⟨s, hr, hpacked, hremoved⟩ := Reaches.exists_of_runWith hend
  exact ⟨s, hpacked, hremoved, (pool_conserves hr).1⟩

end PoolRun

end BlockEmulator
