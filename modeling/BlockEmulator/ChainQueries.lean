import BlockEmulator.HashChain

/-!
# Queries over a block database (`query/query_block.go`)

The databases of a run are opened again to look at their blocks: all of them, in the order
of their keys; the one with a number, by going through all of them; the newest one.

`queries_correct` — **the queries see the chain**: after every run of a process, over all
its restarts, they return exactly the inserted blocks, and the block that was inserted as
number `n` for each `n`, whatever the order of the keys.
-/

namespace BlockEmulator

open StepSystem

variable {H : Type}

/-! ## The queries -/

/-- The blocks as `ForEach` visits them: in the order of their keys. -/
def Storage.forEachBlock (keyLe : H → H → Bool) (s : Storage H) : List (Block H) :=
  (s.block.entries.mergeSort fun e e' => keyLe e.1 e'.1).map (·.2)

/-- `QueryBlocks`. -/
def queryBlocks (keyLe : H → H → Bool) (file : Storage H) : Option (List (Block H)) :=
  file.newStorage.map fun s => s.forEachBlock keyLe

/-- The loop of `QueryBlock` and `QueryBlockTxs`: the last block with the number; `none` is
the new, empty one. -/
def findByNumber (number : ℕ) (blocks : List (Block H)) : Option (Block H) :=
  blocks.foldl (fun block res => if res.header.number = number then some res else block) none

/-- `QueryBlock`. -/
def queryBlock (keyLe : H → H → Bool) (file : Storage H) (number : ℕ) :
    Option (Option (Block H)) :=
  file.newStorage.map fun s => findByNumber number (s.forEachBlock keyLe)

/-- `QueryNewestBlock`; the errors of the two reads are not looked at. -/
def queryNewestBlock [DecidableEq H] (file : Storage H) : Option (Option (Block H)) :=
  file.newStorage.map fun s => s.newestBlockHash.bind s.getBlock

/-- `QueryBlockTxs`. -/
def queryBlockTxs (keyLe : H → H → Bool) (file : Storage H) (number : ℕ) :
    Option (List (Option Transaction)) :=
  file.newStorage.map fun s =>
    match findByNumber number (s.forEachBlock keyLe) with
    | none => []
    | some b => b.body

/-! ## Numbers -/

/-- The last hit, where there is one at most. -/
theorem findByNumber_eq {number : ℕ} {blocks : List (Block H)}
    (huniq : ∀ b ∈ blocks, ∀ c ∈ blocks, b.header.number = number → c.header.number = number → b = c)
    (b : Block H) : findByNumber number blocks = some b ↔ b ∈ blocks ∧ b.header.number = number := by
  induction blocks using List.reverseRecOn with
  | nil => simp [findByNumber]
  | append_singleton blocks c ih =>
    rw [findByNumber, List.foldl_append, List.foldl_cons, List.foldl_nil, ← findByNumber]
    split
    · rename_i hc
      constructor
      · intro heq
        obtain rfl := Option.some.inj heq
        exact ⟨List.mem_append_right _ List.mem_cons_self, hc⟩
      · rintro ⟨hb, hn⟩
        rw [huniq c (List.mem_append_right _ List.mem_cons_self) b hb hc hn]
    · rename_i hc
      rw [ih fun x hx y hy => huniq x (List.mem_append_left _ hx) y (List.mem_append_left _ hy)]
      constructor
      · exact fun h => ⟨List.mem_append_left _ h.1, h.2⟩
      · rintro ⟨hb, hn⟩
        rcases List.mem_append.mp hb with hb | hb
        · exact ⟨hb, hn⟩
        · obtain rfl := List.mem_singleton.mp hb
          exact absurd hn hc

namespace Linked

variable {bs : List (Block H)} {b : Block H}

theorem number_head (h : Linked (b :: bs)) : b.header.number = bs.length := by
  induction bs generalizing b with
  | nil => exact h
  | cons c bs ih =>
    obtain ⟨hnum, -, hrest⟩ := h
    rw [hnum, ih hrest, List.length_cons]

theorem tail (h : Linked (b :: bs)) : Linked bs := by
  cases bs with
  | nil => trivial
  | cons c bs => exact h.2.2

/-- Blocks are numbered from the oldest on. -/
theorem getElem?_reverse (h : Linked bs) {n : ℕ} :
    bs.reverse[n]? = some b ↔ b ∈ bs ∧ b.header.number = n := by
  induction bs with
  | nil => simp
  | cons c bs ih =>
    have hc := h.number_head
    rw [List.reverse_cons, List.mem_cons]
    rcases lt_trichotomy n bs.length with hlt | rfl | hgt
    · rw [List.getElem?_append_left (by rwa [List.length_reverse]), ih h.tail]
      refine and_congr_left fun hn => (or_iff_right ?_).symm
      rintro rfl
      exact absurd (hn.symm.trans hc) hlt.ne
    · have hlast : (bs.reverse ++ [c])[bs.length]? = some c := by
        rw [List.getElem?_append_right (by rw [List.length_reverse]), List.length_reverse,
          Nat.sub_self]
        rfl
      rw [hlast, Option.some.injEq]
      constructor
      · rintro rfl
        exact ⟨.inl rfl, hc⟩
      · rintro ⟨rfl | hb, hn⟩
        · rfl
        · have hnone := (ih h.tail).mpr ⟨hb, hn⟩
          rw [List.getElem?_eq_none (by rw [List.length_reverse])] at hnone
          cases hnone
    · rw [List.getElem?_eq_none (by rw [List.length_append, List.length_reverse]; exact hgt)]
      refine iff_of_false nofun fun ⟨hb, hn⟩ => ?_
      have hle : b.header.number ≤ c.header.number := h.number_le b (List.mem_cons.mpr hb)
      omega

/-- A chain has no block twice. -/
theorem nodup : ∀ {bs : List (Block H)}, Linked bs → bs.Nodup
  | [], _ => List.nodup_nil
  | b :: bs, h => by
    refine List.nodup_cons.mpr ⟨fun hb => ?_, h.tail.nodup⟩
    have hnone := h.tail.getElem?_reverse.mpr ⟨hb, h.number_head⟩
    rw [List.getElem?_eq_none (by rw [List.length_reverse])] at hnone
    cases hnone

end Linked

/-! ## What they return -/

variable [DecidableEq H] {cc : ChainConfig H} {s : Storage H} {bs : List (Block H)}

/-- The entries of the block bucket are the blocks of the chain. -/
theorem Stored.forEachBlock_perm (h : Stored cc s bs) (hnd : bs.Nodup) (keyLe : H → H → Bool) :
    (s.forEachBlock keyLe).Perm bs := by
  have hperm := (List.mergeSort_perm s.block.entries fun e e' => keyLe e.1 e'.1).map
    (fun e : (_ : H) × Block H => e.2)
  have hmem : ∀ e ∈ s.block.entries, e.2 ∈ bs ∧ e.2.hash = e.1 := fun e he =>
    (h.blocks e.1 e.2).mp (AList.mem_lookup_iff.mpr he)
  refine hperm.trans ((List.perm_ext_iff_of_nodup ?_ hnd).mpr fun b => ?_)
  · -- a block is stored under one key
    refine List.Nodup.map_on (fun e he e' he' heq => ?_) (List.NodupKeys.nodup s.block.nodupKeys)
    have hkey : e.1 = e'.1 := by rw [← (hmem e he).2, ← (hmem e' he').2, heq]
    exact Sigma.ext hkey (heq_of_eq heq)
  · rw [List.mem_map]
    constructor
    · rintro ⟨e, he, rfl⟩
      exact (hmem e he).1
    · intro hb
      exact ⟨⟨b.hash, b⟩, AList.mem_lookup_iff.mp (h.getBlock hb), rfl⟩

theorem Stored.findByNumber (h : Stored cc s bs) (keyLe : H → H → Bool) (n : ℕ) :
    findByNumber n (s.forEachBlock keyLe) = bs.reverse[n]? := by
  have hperm := h.forEachBlock_perm h.linked.nodup keyLe
  refine Option.ext fun b => ?_
  rw [h.linked.getElem?_reverse, findByNumber_eq, hperm.mem_iff]
  intro x hx y hy hxn hyn
  have hx := h.linked.getElem?_reverse.mpr ⟨hperm.mem_iff.mp hx, hxn⟩
  have hy := h.linked.getElem?_reverse.mpr ⟨hperm.mem_iff.mp hy, hyn⟩
  exact Option.some.inj (hx.symm.trans hy)

/-- **The queries see the chain**: in every run of a process, over all its restarts, a
database that can be opened gives back the inserted blocks, the newest of them, and the
one that was inserted as number `n`, with its transactions, for every `n` and whatever the
order of the keys. -/
theorem queries_correct (cc : ChainConfig H) (hinj : Function.Injective cc.hash.headerHash)
    (keyLe : H → H → Bool) {s : ChainLog H}
    (hr : Reaches (ChainLog.step cc) (fun _ _ => True) ChainLog.start s)
    (hw : s.process.file.writable = true) :
    (∃ blocks, queryBlocks keyLe s.process.file = some blocks ∧ blocks.Perm s.inserted) ∧
      queryNewestBlock s.process.file = some s.inserted.head? ∧
      ∀ n, queryBlock keyLe s.process.file n = some s.inserted.reverse[n]? ∧
        queryBlockTxs keyLe s.process.file n =
          some ((s.inserted.reverse[n]?.map (·.body)).getD []) := by
  have hs : s.Sound cc := hr.invariant (ChainLog.Sound cc) ChainLog.Sound.start
    fun _ _ _ hs _ h => hs.step hinj h
  obtain ⟨storage, hopen⟩ : ∃ storage, s.process.file.newStorage = some storage := by
    rw [Storage.newStorage, if_pos hw]
    exact ⟨_, rfl⟩
  obtain ⟨hstored, -⟩ := hs.stored.newStorage hopen
  refine ⟨⟨_, by rw [queryBlocks, hopen]; rfl,
    hstored.forEachBlock_perm hstored.linked.nodup keyLe⟩, ?_, fun n => ⟨?_, ?_⟩⟩
  · rw [queryNewestBlock, hopen, Option.map_some, hstored.newest]
    cases hbs : s.inserted with
    | nil => rfl
    | cons b bs =>
      have hget := hstored.getBlock (b := b) (hbs ▸ List.mem_cons_self)
      exact congrArg some hget
  · rw [queryBlock, hopen, Option.map_some, hstored.findByNumber]
  · rw [queryBlockTxs, hopen, Option.map_some, hstored.findByNumber]
    cases s.inserted.reverse[n]? with
    | none => rfl
    | some b => rfl

/-- A payment, a restart and two installations of accounts. -/
theorem queries_correct_restart :
    ∃ s : ChainLog FreeHash, s.inserted.length = 4 ∧
      ∃ blocks, queryBlocks (fun _ _ => true) s.process.file = some blocks ∧
        blocks.Perm s.inserted := by
  obtain ⟨s, hr, hs⟩ := Reaches.exists_of_runWith
    (P := fun s => ChainLog.upOver 4 s = true ∧ s.process.file.writable = true) (show
    (runWith (ChainLog.step sampleConfig) (fun _ _ => True) ChainLog.start
      [.restart ∅, .addBlock (some sampleBlock), .addAccounts ["c"] [⟨0, 3⟩], .stop,
        .restart ∅, .addBlock (some sampleBlock), .addAccounts ["c"] [⟨0, 4⟩]]).any
      _ = true by decide +kernel)
  have hlen : s.inserted.length = 4 := by
    obtain ⟨p, bs⟩ := s
    cases p with
    | up bc => exact of_decide_eq_true hs.1
    | down file => cases hs.1
  exact ⟨s, hlen, (queries_correct sampleConfig freeHash_injective _ hr hs.2).1⟩

end BlockEmulator
