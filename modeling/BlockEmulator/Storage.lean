import Mathlib.Data.List.AList
import BlockEmulator.Transaction

/-!
# The block storage (`storage/storage.go`)

A bolt database of four buckets: blocks and headers under their hash, the hash
of the newest block, and the index of executed transaction hashes that guards
against replay. A bolt update is atomic: it happens whole or it fails and
changes nothing; `writable` says which (a full disk, a missing bucket).

`addBlock` extends the index with the hashes of the block; `newStorage` rebuilds
it from the stored blocks when a database is opened (the backfill).
-/

namespace BlockEmulator

variable {H : Type}

/-- `storage.Storage`, with the content of its bolt database. -/
structure Storage (H : Type) where
  /-- bucket `block` -/
  block : AList fun _ : H => Block H
  /-- bucket `blockHeader` -/
  blockHeader : AList fun _ : H => BlockHeader H
  /-- the only key of bucket `newestBlockHash` -/
  newestBlockHash : Option H
  /-- bucket `executedTransaction` -/
  executedTransaction : Finset Bytes
  /-- whether an update transaction of the database succeeds -/
  writable : Bool

/-- The hashes a block puts into the index: those of its transactions that are
neither nil nor without a hash. -/
def bodyHashes (body : List (Option Transaction)) : List Bytes :=
  body.filterMap fun p => match p with
    | none => none
    | some tx => if tx.txHash = [] then none else some tx.txHash

theorem mem_bodyHashes {body : List (Option Transaction)} {h : Bytes} :
    h ∈ bodyHashes body ↔ h ≠ [] ∧ ∃ tx, some tx ∈ body ∧ tx.txHash = h := by
  rw [bodyHashes, List.mem_filterMap]
  constructor
  · rintro ⟨p, hp, hph⟩
    rcases p with _ | tx
    · cases hph
    · by_cases hnil : tx.txHash = []
      · simp [hnil] at hph
      · simp only [hnil, if_false, Option.some.injEq] at hph
        exact ⟨hph ▸ hnil, tx, hp, hph⟩
  · rintro ⟨hne, tx, htx, rfl⟩
    exact ⟨some tx, htx, by simp [hne]⟩

/-- All transaction hashes of a body. -/
def txHashes (body : List (Option Transaction)) : List Bytes :=
  body.filterMap fun p => p.map (·.txHash)

@[simp] theorem txHashes_map_some (txs : List Transaction) :
    txHashes (txs.map some) = txs.map (·.txHash) := by
  induction txs with
  | nil => rfl
  | cons tx txs ih =>
    rw [List.map_cons, txHashes, List.filterMap_cons, Option.map_some, List.map_cons, ← ih]
    rfl

theorem mem_txHashes {body : List (Option Transaction)} {h : Bytes} :
    h ∈ txHashes body ↔ ∃ tx, some tx ∈ body ∧ tx.txHash = h := by
  rw [txHashes, List.mem_filterMap]
  constructor
  · rintro ⟨p, hp, hph⟩
    obtain ⟨tx, rfl, rfl⟩ := Option.map_eq_some_iff.mp hph
    exact ⟨tx, hp, rfl⟩
  · rintro ⟨tx, htx, rfl⟩
    exact ⟨some tx, htx, rfl⟩

theorem mem_bodyHashes_iff {body : List (Option Transaction)} {h : Bytes} :
    h ∈ bodyHashes body ↔ h ≠ [] ∧ h ∈ txHashes body := by
  rw [mem_bodyHashes, mem_txHashes]

namespace Storage

/-- A database just created. -/
def empty : Storage H := ⟨∅, ∅, none, ∅, true⟩

/-- `HasTransaction`; `none` is the error on an empty hash. -/
def hasTransaction (s : Storage H) (txHash : Bytes) : Option Bool :=
  if txHash = [] then none else some (decide (txHash ∈ s.executedTransaction))

/-- The hashes of the bodies of all stored blocks, as the backfill of
`NewStorage` collects them. -/
def backfill (s : Storage H) : Finset Bytes :=
  (s.block.entries.flatMap fun e => bodyHashes e.2.body).toFinset

/-- `NewStorage` on an existing file: the index is completed from the blocks, in
one update whose failure is a panic. -/
def newStorage (s : Storage H) : Option (Storage H) :=
  if s.writable then
    some { s with executedTransaction := s.executedTransaction ∪ s.backfill }
  else none

/-- What opening a file changes. -/
theorem newStorage_eq_some {s s' : Storage H} (h : s.newStorage = some s') :
    s' = { s with executedTransaction := s.executedTransaction ∪ s.backfill } := by
  rw [newStorage] at h
  by_cases hw : s.writable = true
  · rw [if_pos hw] at h
    exact (Option.some.inj h).symm
  · rw [if_neg hw] at h
    cases h

variable [DecidableEq H]

/-- `AddBlock`: one update that writes the block, its header, the newest hash
and the index; `none` is the error of a failed update. -/
def addBlock (s : Storage H) (b : Block H) : Option (Storage H) :=
  if s.writable then
    some
      { s with
        block := s.block.insert b.hash b
        blockHeader := s.blockHeader.insert b.hash b.header
        newestBlockHash := some b.hash
        executedTransaction := s.executedTransaction ∪ (bodyHashes b.body).toFinset }
  else none

/-- `GetBlock`. -/
def getBlock (s : Storage H) (bhash : H) : Option (Block H) := s.block.lookup bhash

/-- `GetBlockHeader`. -/
def getBlockHeader (s : Storage H) (bhash : H) : Option (BlockHeader H) :=
  s.blockHeader.lookup bhash

theorem mem_backfill {s : Storage H} {h : Bytes} :
    h ∈ s.backfill ↔ ∃ bh b, s.getBlock bh = some b ∧ h ∈ bodyHashes b.body := by
  rw [backfill, List.mem_toFinset, List.mem_flatMap]
  constructor
  · rintro ⟨⟨bh, b⟩, he, hh⟩
    exact ⟨bh, b, AList.mem_lookup_iff.mpr he, hh⟩
  · rintro ⟨bh, b, hb, hh⟩
    exact ⟨⟨bh, b⟩, AList.mem_lookup_iff.mp hb, hh⟩

/-- What a successful insertion writes. -/
theorem addBlock_eq_some {s s' : Storage H} {b : Block H} (h : s.addBlock b = some s') :
    s' =
      { s with
        block := s.block.insert b.hash b
        blockHeader := s.blockHeader.insert b.hash b.header
        newestBlockHash := some b.hash
        executedTransaction := s.executedTransaction ∪ (bodyHashes b.body).toFinset } := by
  rw [addBlock] at h
  by_cases hw : s.writable = true
  · rw [if_pos hw] at h
    exact (Option.some.inj h).symm
  · rw [if_neg hw] at h
    cases h

theorem getBlock_insert {s : Storage H} {b : Block H} {s' : Storage H}
    (h : s.addBlock b = some s') (bh : H) :
    s'.getBlock bh = if bh = b.hash then some b else s.getBlock bh := by
  rw [addBlock_eq_some h, getBlock]
  by_cases hb : bh = b.hash
  · rw [if_pos hb, hb]
    exact AList.lookup_insert _
  · rw [if_neg hb]
    exact AList.lookup_insert_ne hb

end Storage

end BlockEmulator
