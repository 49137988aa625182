import BlockEmulator.StepSystem
import BlockEmulator.Validation

/-!
# Replay protection over whole runs

A node's process is up with its chain in memory, or down with only its bolt file
left. `Process.step` takes it through everything that touches blocks or the
index of executed transactions: insertion of arbitrary blocks, installation of
migrated accounts, pool additions, proposals, failing writes, a stop (or a panic)
at any point, and a restart. A restart may find a file whose index an older
version has written only in part, or not at all; the backfill completes it.

`Stored` is the invariant that carries the argument: the block bucket holds
exactly one hash-linked chain, in which no transaction hash is repeated, and the
index never holds a hash that is in none of its blocks. Block hashes are
collision-free, so a new block, one higher than the top, lands on a fresh key and
overwrites nothing.
-/

namespace BlockEmulator

open StepSystem BlockChain

variable {H : Type}

/-! ## The chain below a block -/

/-- Follow the parent hashes through the block bucket, `n` steps at most. -/
def ancestors [DecidableEq H] (s : Storage H) : ℕ → Block H → List (Block H)
  | 0, b => [b]
  | n + 1, b =>
    b :: match s.getBlock b.header.parentBlockHash with
      | none => []
      | some p => ancestors s n p

/-- The chain that ends at a block, newest first, down to height `0`. -/
def chainEndingAt [DecidableEq H] (s : Storage H) (b : Block H) : List (Block H) :=
  ancestors s b.header.number b

/-- Each block sits one above the next and names its hash; the last is at
height `0`. -/
def Linked : List (Block H) → Prop
  | [] => True
  | [b] => b.header.number = 0
  | b :: c :: bs =>
    b.header.number = c.header.number + 1 ∧ b.header.parentBlockHash = c.hash ∧ Linked (c :: bs)

theorem Linked.number_le {b : Block H} {bs : List (Block H)} (h : Linked (b :: bs)) :
    ∀ c ∈ b :: bs, c.header.number ≤ b.header.number := by
  induction bs generalizing b with
  | nil =>
    intro c hc
    obtain rfl := List.mem_singleton.mp hc
    exact le_refl _
  | cons d ds ih =>
    obtain ⟨hnum, -, hrest⟩ := h
    intro c hc
    rcases List.mem_cons.mp hc with rfl | hc
    · exact le_refl _
    · have := ih hrest c hc
      omega

/-! ## The process and its steps -/

/-- A node's process. -/
inductive Process (H : Type) where
  /-- running, over a chain in memory -/
  | up : BlockChain H → Process H
  /-- not running: what is left is the bolt file -/
  | down : Storage H → Process H

/-- What can happen to a process. -/
inductive ChainAction (H : Type) where
  /-- `AddBlock` of any block, a nil one included -/
  | addBlock : Option (Block H) → ChainAction H
  /-- `AddAccounts` -/
  | addAccounts : List Address → List AccountState → ChainAction H
  /-- `AddTxs2Pool` -/
  | addTxs2Pool : List (Option Transaction) → ChainAction H
  /-- `AddTxs2Pool_Head` -/
  | addTxs2PoolHead : List (Option Transaction) → ChainAction H
  /-- `GenerateBlock`; the block may be inserted later or never -/
  | generateBlock : ℕ → Time → ChainAction H
  /-- `Update_PartitionMap` -/
  | updatePartitionMap : Address → ℕ → ChainAction H
  /-- the database starts to fail, or stops failing -/
  | setWritable : Bool → ChainAction H
  /-- the process ends -/
  | stop : ChainAction H
  /-- the process starts on a file of which this part of the index is there -/
  | restart : Finset Bytes → ChainAction H

/-- Whether an action adds no block to a chain. -/
def ChainAction.AddsNothing [DecidableEq H] (cc : ChainConfig H) (bc : BlockChain H) :
    ChainAction H → Prop
  | .addBlock b => ∀ bc', bc.addBlock cc b ≠ some (.ok bc')
  | .addAccounts ac as => bc.addAccounts cc ac as = none
  | _ => True

namespace Process

variable [DecidableEq H] (cc : ChainConfig H)

/-- A process that panics over its chain leaves the bolt file behind. -/
def orDown (bc : BlockChain H) : Option (BlockChain H) → Process H
  | none => .down bc.storage
  | some bc' => .up bc'

/-- One step of a process. -/
def step : Process H → ChainAction H → Option (Process H)
  | .up bc, .addBlock b =>
    match BlockChain.addBlock cc bc b with
    | none => some (.down bc.storage)
    | some (.error _) => some (.up bc)
    | some (.ok bc') => some (.up bc')
  | .up bc, .addAccounts ac as => some (orDown bc (BlockChain.addAccounts cc bc ac as))
  | .up bc, .addTxs2Pool txs =>
    some (orDown bc ((bc.txpool.addTxs2Pool txs).map fun p => { bc with txpool := p }))
  | .up bc, .addTxs2PoolHead txs =>
    some (.up { bc with txpool := bc.txpool.addTxs2PoolHead txs })
  | .up bc, .generateBlock miner now =>
    some (orDown bc ((BlockChain.generateBlock cc bc miner now).map Prod.snd))
  | .up bc, .updatePartitionMap key val => some (.up (bc.updatePartitionMap key val))
  | .up bc, .setWritable w =>
    some (.up { bc with storage := { bc.storage with writable := w } })
  | .up bc, .stop => some (.down bc.storage)
  | .down file, .setWritable w => some (.down { file with writable := w })
  | .down file, .restart index =>
    if index ⊆ file.executedTransaction then
      match newBlockChain cc { file with executedTransaction := index } with
      | none => some (.down { file with executedTransaction := index })
      | some bc => some (.up bc)
    else none
  | _, _ => none

/-- A machine that has never run the node. -/
def fresh : Process H := .down Storage.empty

/-! ### What a step can do -/

variable {cc}

/-- What a step of a process does to its chain. -/
inductive Move (cc : ChainConfig H) : Process H → ChainAction H → Process H → Prop where
  /-- the process ends, or panics -/
  | ended (bc : BlockChain H) (a : ChainAction H) (h : a.AddsNothing cc bc) :
    Move cc (.up bc) a (.down bc.storage)
  /-- the chain stays, where pool, placements and writability may change -/
  | kept (bc bc' : BlockChain H) (a : ChainAction H) (w : Bool) (h : a.AddsNothing cc bc)
    (hb : bc'.currentBlock = bc.currentBlock)
    (hs : bc'.storage = { bc.storage with writable := w }) : Move cc (.up bc) a (.up bc')
  /-- a block is added -/
  | added (b : Option (Block H)) (bc bc' : BlockChain H)
    (h : bc.addBlock cc b = some (.ok bc')) : Move cc (.up bc) (.addBlock b) (.up bc')
  /-- accounts are installed, with a block -/
  | installed (ac : List Address) (as : List AccountState) (bc bc' : BlockChain H)
    (h : bc.addAccounts cc ac as = some bc') : Move cc (.up bc) (.addAccounts ac as) (.up bc')
  /-- the database starts to fail, or stops failing -/
  | switched (file : Storage H) (w : Bool) :
    Move cc (.down file) (.setWritable w) (.down { file with writable := w })
  /-- a part of the index is lost, and the file is not opened -/
  | notOpened (file : Storage H) (index : Finset Bytes) (hi : index ⊆ file.executedTransaction)
    (h : newBlockChain cc { file with executedTransaction := index } = none) :
    Move cc (.down file) (.restart index) (.down { file with executedTransaction := index })
  /-- the file is opened -/
  | opened (file : Storage H) (index : Finset Bytes) (bc : BlockChain H)
    (hi : index ⊆ file.executedTransaction)
    (h : newBlockChain cc { file with executedTransaction := index } = some bc) :
    Move cc (.down file) (.restart index) (.up bc)

/-- **What a step can do.** -/
theorem step_move {p q : Process H} {a : ChainAction H} (h : step cc p a = some q) :
    Move cc p a q := by
  cases p with
  | up bc =>
    cases a with
    | addBlock b =>
      simp only [step] at h
      split at h
      · rename_i hadd
        obtain rfl := Option.some.inj h
        exact .ended bc _ fun bc' hok => by rw [hadd] at hok; cases hok
      · rename_i e hadd
        obtain rfl := Option.some.inj h
        exact .kept bc bc _ _ (fun bc' hok => by rw [hadd] at hok; cases hok) rfl rfl
      · rename_i bc' hadd
        obtain rfl := Option.some.inj h
        exact .added b bc bc' hadd
    | addAccounts ac as =>
      obtain rfl := Option.some.inj h
      rcases hadd : BlockChain.addAccounts cc bc ac as with _ | bc'
      · exact .ended bc _ hadd
      · exact .installed ac as bc bc' hadd
    | addTxs2Pool txs =>
      obtain rfl := Option.some.inj h
      rcases bc.txpool.addTxs2Pool txs with _ | pool
      · exact .ended bc _ trivial
      · exact .kept bc _ _ _ trivial rfl rfl
    | generateBlock miner now =>
      obtain rfl := Option.some.inj h
      rcases hgen : BlockChain.generateBlock cc bc miner now with _ | ⟨b, bc'⟩
      · exact .ended bc _ trivial
      · obtain ⟨-, -, -, -, -, -, -, -, rfl⟩ := generateBlock_eq_some hgen
        exact .kept bc _ _ _ trivial rfl rfl
    | addTxs2PoolHead txs =>
      obtain rfl := Option.some.inj h
      exact .kept bc _ _ _ trivial rfl rfl
    | updatePartitionMap key val =>
      obtain rfl := Option.some.inj h
      exact .kept bc _ _ _ trivial rfl rfl
    | setWritable w =>
      obtain rfl := Option.some.inj h
      exact .kept bc _ _ w trivial rfl rfl
    | stop =>
      obtain rfl := Option.some.inj h
      exact .ended bc _ trivial
    | restart index => cases h
  | down file =>
    cases a with
    | setWritable w =>
      obtain rfl := Option.some.inj h
      exact .switched file w
    | restart index =>
      simp only [step] at h
      split at h
      · rename_i hi
        split at h
        · rename_i hnew
          obtain rfl := Option.some.inj h
          exact .notOpened file index hi hnew
        · rename_i bc hnew
          obtain rfl := Option.some.inj h
          exact .opened file index bc hi hnew
      · cases h
    | _ => cases h

end Process

/-! ## The invariant -/

variable [DecidableEq H] {cc : ChainConfig H}

/-- The storage holds exactly the chain `bs`, newest first. -/
structure Stored (cc : ChainConfig H) (s : Storage H) (bs : List (Block H)) : Prop where
  /-- the block bucket holds exactly the blocks of the chain, under their hashes -/
  blocks : ∀ h b, s.getBlock h = some b ↔ b ∈ bs ∧ b.hash = h
  /-- every block is stored under the hash of its header -/
  hashed : ∀ b ∈ bs, b.hash = cc.hash.headerHash b.header
  /-- the blocks form a chain -/
  linked : Linked bs
  /-- the newest-block pointer is that of the top -/
  newest : s.newestBlockHash = bs.head?.map (·.hash)
  /-- no transaction hash occurs twice in the chain -/
  nodup : (bs.flatMap fun b => txHashes b.body).Nodup
  /-- no transaction of the chain is without a hash -/
  nonempty : ∀ b ∈ bs, [] ∉ txHashes b.body
  /-- the index holds nothing but hashes of the chain -/
  indexed : ∀ h ∈ s.executedTransaction, ∃ b ∈ bs, h ∈ txHashes b.body

/-- The index is complete: it holds every hash of the stored chain. -/
def Complete (s : Storage H) (bs : List (Block H)) : Prop :=
  ∀ b ∈ bs, ∀ h ∈ txHashes b.body, h ∈ s.executedTransaction

/-- The invariant of a process. -/
def Guarded (cc : ChainConfig H) : Process H → Prop
  | .up bc => ∃ bs, Stored cc bc.storage (bc.currentBlock :: bs) ∧
      Complete bc.storage (bc.currentBlock :: bs)
  | .down file => ∃ bs, Stored cc file bs

namespace Stored

variable {s s' : Storage H} {bs : List (Block H)} {b c : Block H}

/-- Every block of the chain is found under its hash. -/
theorem getBlock (h : Stored cc s bs) (hb : b ∈ bs) : s.getBlock b.hash = some b :=
  (h.blocks b.hash b).mpr ⟨hb, rfl⟩

/-- A block one above the top lands on a fresh key. -/
theorem hash_ne (hinj : Function.Injective cc.hash.headerHash) (h : Stored cc s bs)
    (hl : Linked (b :: bs)) (hh : b.hash = cc.hash.headerHash b.header) (hc : c ∈ bs) :
    c.hash ≠ b.hash := by
  intro heq
  rw [h.hashed c hc, hh] at heq
  have hnum : c.header.number = b.header.number := congrArg _ (hinj heq)
  cases bs with
  | nil => cases hc
  | cons d ds =>
    obtain ⟨hup, -, hrest⟩ := hl
    have := hrest.number_le c hc
    omega

/-- **Insertion keeps the chain**: a block one above the top, stored under the
hash of its header, whose transactions have distinct non-empty hashes that occur
nowhere in the chain. -/
theorem push (hinj : Function.Injective cc.hash.headerHash) (h : Stored cc s bs)
    (hs : s.addBlock b = some s') (hl : Linked (b :: bs))
    (hh : b.hash = cc.hash.headerHash b.header) (hne : [] ∉ txHashes b.body)
    (hnd : (txHashes b.body).Nodup)
    (hnew : ∀ t ∈ txHashes b.body, ∀ c ∈ bs, t ∉ txHashes c.body) :
    Stored cc s' (b :: bs) where
  blocks t d := by
    rw [Storage.getBlock_insert hs, List.mem_cons]
    by_cases ht : t = b.hash
    · rw [if_pos ht]
      constructor
      · intro hd
        obtain rfl := Option.some.inj hd
        exact ⟨.inl rfl, ht.symm⟩
      · rintro ⟨rfl | hd, hdt⟩
        · rfl
        · exact absurd (hdt.trans ht) (h.hash_ne hinj hl hh hd)
    · rw [if_neg ht, h.blocks]
      constructor
      · rintro ⟨hd, hdt⟩
        exact ⟨.inr hd, hdt⟩
      · rintro ⟨rfl | hd, hdt⟩
        · exact absurd hdt.symm ht
        · exact ⟨hd, hdt⟩
  hashed d hd := by
    rcases List.mem_cons.mp hd with rfl | hd
    · exact hh
    · exact h.hashed d hd
  linked := hl
  newest := by
    rw [Storage.addBlock_eq_some hs]
    rfl
  nodup := by
    rw [List.flatMap_cons]
    refine List.nodup_append.mpr ⟨hnd, h.nodup, fun t ht u hu heq => ?_⟩
    obtain ⟨d, hd, hud⟩ := List.mem_flatMap.mp hu
    exact hnew t ht d hd (heq ▸ hud)
  nonempty d hd := by
    rcases List.mem_cons.mp hd with rfl | hd
    · exact hne
    · exact h.nonempty d hd
  indexed t ht := by
    rw [Storage.addBlock_eq_some hs] at ht
    rcases Finset.mem_union.mp ht with ht | ht
    · obtain ⟨d, hd, htd⟩ := h.indexed t ht
      exact ⟨d, List.mem_cons_of_mem _ hd, htd⟩
    · exact ⟨b, List.mem_cons_self, (mem_bodyHashes_iff.mp (List.mem_toFinset.mp ht)).2⟩

/-- The index stays complete when a block is inserted. -/
theorem complete_push (h : Complete s bs) (hs : s.addBlock b = some s')
    (hne : [] ∉ txHashes b.body) : Complete s' (b :: bs) := by
  intro d hd t ht
  rw [Storage.addBlock_eq_some hs]
  rcases List.mem_cons.mp hd with rfl | hd
  · refine Finset.mem_union_right _ (List.mem_toFinset.mpr (mem_bodyHashes_iff.mpr ⟨?_, ht⟩))
    rintro rfl
    exact hne ht
  · exact Finset.mem_union_left _ (h d hd t ht)

/-- What the chain does not depend on: the flag, and index entries left out. -/
theorem restrict (h : Stored cc s bs) {index : Finset Bytes} {w : Bool}
    (hi : index ⊆ s.executedTransaction) :
    Stored cc { s with executedTransaction := index, writable := w } bs :=
  { h with indexed := fun t ht => h.indexed t (hi ht) }

/-- **The backfill completes the index** and puts nothing else into it. -/
theorem newStorage (h : Stored cc s bs) (hs : s.newStorage = some s') :
    Stored cc s' bs ∧ Complete s' bs := by
  obtain rfl := Storage.newStorage_eq_some hs
  refine ⟨{ h with indexed := fun t ht => ?_ }, fun b hb t ht => ?_⟩
  · rcases Finset.mem_union.mp ht with ht | ht
    · exact h.indexed t ht
    · obtain ⟨bh, b, hget, htb⟩ := Storage.mem_backfill.mp ht
      exact ⟨b, ((h.blocks bh b).mp hget).1, (mem_bodyHashes_iff.mp htb).2⟩
  · refine Finset.mem_union_right _ (Storage.mem_backfill.mpr ⟨b.hash, b, h.getBlock hb, ?_⟩)
    refine mem_bodyHashes_iff.mpr ⟨?_, ht⟩
    rintro rfl
    exact h.nonempty b hb ht

/-- Following the parent hashes from the top gives the whole chain. -/
theorem ancestors_eq : ∀ {bs : List (Block H)} {b : Block H}, Linked (b :: bs) →
    (∀ c ∈ bs, s.getBlock c.hash = some c) → ancestors s b.header.number b = b :: bs
  | [], b, hl, _ => by
    rw [show b.header.number = 0 from hl, ancestors]
  | c :: cs, b, hl, hget => by
    obtain ⟨hnum, hpar, hrest⟩ := hl
    rw [hnum, ancestors, hpar, hget c List.mem_cons_self]
    dsimp only
    rw [ancestors_eq hrest fun d hd => hget d (List.mem_cons_of_mem _ hd)]

theorem chainEndingAt_eq (h : Stored cc s (b :: bs)) : chainEndingAt s b = b :: bs :=
  ancestors_eq h.linked fun _ hc => h.getBlock (List.mem_cons_of_mem _ hc)

/-- The index of a complete storage is exactly the hashes of its blocks. -/
theorem mem_executed_iff (h : Stored cc s bs) (hc : Complete s bs) {t : Bytes} :
    t ∈ s.executedTransaction ↔ ∃ bh b, s.getBlock bh = some b ∧ t ∈ txHashes b.body := by
  constructor
  · intro ht
    obtain ⟨b, hb, htb⟩ := h.indexed t ht
    exact ⟨b.hash, b, h.getBlock hb, htb⟩
  · rintro ⟨bh, b, hget, htb⟩
    exact hc b ((h.blocks bh b).mp hget).1 t htb

end Stored

/-! ## Every step keeps the invariant -/

/-- `AddBlock` extends the chain by the accepted block. -/
theorem Stored.addBlock (hinj : Function.Injective cc.hash.headerHash) {bc bc' : BlockChain H}
    {bs : List (Block H)} {b : Option (Block H)}
    (hst : Stored cc bc.storage (bc.currentBlock :: bs))
    (hc : Complete bc.storage (bc.currentBlock :: bs))
    (h : BlockChain.addBlock cc bc b = some (.ok bc')) :
    Stored cc bc'.storage (bc'.currentBlock :: bc.currentBlock :: bs) ∧
      Complete bc'.storage (bc'.currentBlock :: bc.currentBlock :: bs) := by
  obtain ⟨b', storage, -, hv, hs, rfl⟩ := addBlock_eq_ok h
  obtain ⟨hnum, hpar, -, hhash, hbody, -⟩ := isValidBlock_eq_ok.mp hv
  obtain ⟨txs, htxs, hnd, hall⟩ := checkBody_eq_ok.mp hbody
  have hhashes : txHashes b'.body = txs.map (·.txHash) := by
    rw [htxs, txHashes_map_some]
  -- `checkBody` has refused empty hashes, so every block has an entry in the index
  have hne : [] ∉ txHashes b'.body := by
    rw [hhashes]
    intro hmem
    obtain ⟨tx, htx, hnil⟩ := List.mem_map.mp hmem
    exact (hall tx htx).1 hnil
  refine ⟨hst.push hinj hs ⟨hnum, hpar, hst.linked⟩ hhash.symm hne (hhashes ▸ hnd) ?_,
    Stored.complete_push hc hs hne⟩
  intro t ht c hcm htc
  rw [hhashes] at ht
  obtain ⟨tx, htx, rfl⟩ := List.mem_map.mp ht
  exact (hall tx htx).2.2 (hc c hcm tx.txHash htc)

/-- `AddAccounts` extends the chain by a block without transactions. -/
theorem Stored.addAccounts (hinj : Function.Injective cc.hash.headerHash)
    {bc bc' : BlockChain H} {bs : List (Block H)} {ac : List Address} {as : List AccountState}
    (hst : Stored cc bc.storage (bc.currentBlock :: bs))
    (hc : Complete bc.storage (bc.currentBlock :: bs))
    (h : BlockChain.addAccounts cc bc ac as = some bc') :
    Stored cc bc'.storage (bc'.currentBlock :: bc.currentBlock :: bs) ∧
      Complete bc'.storage (bc'.currentBlock :: bc.currentBlock :: bs) := by
  obtain ⟨b, storage, hbody, hnum, hpar, hhash, hs, -, rfl⟩ := addAccounts_eq_some h
  have hnone : txHashes b.body = [] := by rw [hbody]; rfl
  have hne : [] ∉ txHashes b.body := by rw [hnone]; exact List.not_mem_nil
  refine ⟨hst.push hinj hs ⟨hnum, hpar, hst.linked⟩ hhash hne ?_ ?_,
    Stored.complete_push hc hs hne⟩
  · rw [hnone]
    exact List.nodup_nil
  · rw [hnone]
    exact fun t ht => absurd ht List.not_mem_nil

/-- The chain that a file holds once it is opened: a file without a newest block gets
the genesis block. -/
def openedChain (cc : ChainConfig H) (bs : List (Block H)) : List (Block H) :=
  if bs.isEmpty then [newGenisisBlock cc] else bs

/-- Opening a file gives its chain, with a complete index and the top as current block. -/
theorem Stored.newBlockChain_opens (hinj : Function.Injective cc.hash.headerHash)
    {file : Storage H} {bs : List (Block H)} {bc : BlockChain H} (hst : Stored cc file bs)
    (h : BlockChain.newBlockChain cc file = some bc) :
    ∃ cs, openedChain cc bs = bc.currentBlock :: cs ∧
      Stored cc bc.storage (bc.currentBlock :: cs) ∧
      Complete bc.storage (bc.currentBlock :: cs) := by
  rw [BlockChain.newBlockChain] at h
  obtain ⟨s, hs, h⟩ := Option.bind_eq_some_iff.mp h
  obtain ⟨hst', hc⟩ := hst.newStorage hs
  have hnewest := hst'.newest
  cases bs with
  | nil =>
    rw [List.head?_nil, Option.map_none] at hnewest
    rw [hnewest] at h
    obtain ⟨s', hs', h⟩ := Option.bind_eq_some_iff.mp h
    obtain ⟨curHash, hcur, h⟩ := Option.bind_eq_some_iff.mp h
    obtain ⟨curb, hget, rfl⟩ := Option.map_eq_some_iff.mp h
    -- the genesis block is inserted over the empty chain
    have hpush : Stored cc s' [newGenisisBlock cc] :=
      hst'.push hinj hs' rfl rfl List.not_mem_nil List.nodup_nil
        fun t ht => absurd ht List.not_mem_nil
    obtain ⟨hmem, -⟩ := (hpush.blocks curHash curb).mp hget
    obtain rfl := List.mem_singleton.mp hmem
    exact ⟨[], rfl, hpush, Stored.complete_push hc hs' List.not_mem_nil⟩
  | cons c cs =>
    rw [List.head?_cons, Option.map_some] at hnewest
    rw [hnewest] at h
    obtain ⟨curb, hget, rfl⟩ := Option.map_eq_some_iff.mp h
    -- the newest block hash is that of the top, so the top is read back
    rw [hst'.getBlock List.mem_cons_self] at hget
    obtain rfl := Option.some.inj hget
    exact ⟨cs, rfl, hst', hc⟩

/-- Opening a file gives a chain whose index is complete. -/
theorem Stored.newBlockChain (hinj : Function.Injective cc.hash.headerHash)
    {file : Storage H} {bs : List (Block H)} {bc : BlockChain H} (hst : Stored cc file bs)
    (h : BlockChain.newBlockChain cc file = some bc) : Guarded cc (.up bc) := by
  obtain ⟨cs, -, hst', hc⟩ := hst.newBlockChain_opens hinj h
  exact ⟨cs, hst', hc⟩

/-- A running chain leaves a good file behind. -/
theorem Guarded.down {bc : BlockChain H} (h : Guarded cc (.up bc)) :
    Guarded cc (.down bc.storage) := by
  obtain ⟨bs, hst, -⟩ := h
  exact ⟨_, hst⟩

/-- A change of pool, placements or writability is none of the invariant's. -/
theorem Guarded.frame {bc bc' : BlockChain H} (h : Guarded cc (.up bc))
    (hb : bc'.currentBlock = bc.currentBlock) {w : Bool}
    (hs : bc'.storage = { bc.storage with writable := w }) : Guarded cc (.up bc') := by
  obtain ⟨bs, hst, hc⟩ := h
  refine ⟨bs, ?_, ?_⟩
  · rw [hb, hs]
    exact hst.restrict (Finset.Subset.refl _)
  · rw [hb, hs]
    exact hc

/-- **Every step keeps the invariant.** -/
theorem Guarded.step (hinj : Function.Injective cc.hash.headerHash) {p q : Process H}
    {a : ChainAction H} (hp : Guarded cc p) (h : Process.step cc p a = some q) :
    Guarded cc q := by
  cases Process.step_move h with
  | ended => exact hp.down
  | kept bc bc' a w _ hb hs => exact hp.frame hb hs
  | added b bc bc' hadd =>
    obtain ⟨bs, hst, hc⟩ := hp
    exact ⟨_, hst.addBlock hinj hc hadd⟩
  | installed ac as bc bc' hadd =>
    obtain ⟨bs, hst, hc⟩ := hp
    exact ⟨_, hst.addAccounts hinj hc hadd⟩
  -- down, the chain in the file stays; its index may lose entries, and is not asked for
  | switched file w =>
    obtain ⟨bs, hst⟩ := hp
    exact ⟨bs, hst.restrict (Finset.Subset.refl _)⟩
  | notOpened file index hi =>
    obtain ⟨bs, hst⟩ := hp
    exact ⟨bs, hst.restrict (w := file.writable) hi⟩
  | opened file index bc hi hnew =>
    obtain ⟨bs, hst⟩ := hp
    exact (hst.restrict (w := file.writable) hi).newBlockChain hinj hnew

theorem stored_empty : Stored cc Storage.empty [] where
  blocks _ _ := ⟨fun h => (by cases h), fun h => absurd h.1 List.not_mem_nil⟩
  hashed _ h := absurd h List.not_mem_nil
  linked := trivial
  newest := rfl
  nodup := List.nodup_nil
  nonempty _ h := absurd h List.not_mem_nil
  indexed _ h := absurd h (Finset.notMem_empty _)

/-- A fresh machine meets the invariant. -/
theorem guarded_fresh : Guarded cc Process.fresh := ⟨[], stored_empty⟩

/-- The invariant holds in every state a process reaches. -/
theorem guarded_reachable (hinj : Function.Injective cc.hash.headerHash) {p : Process H}
    (hr : Reaches (Process.step cc) (fun _ _ => True) Process.fresh p) : Guarded cc p :=
  hr.invariant (Guarded cc) guarded_fresh fun _ _ _ hp _ h => hp.step hinj h

/-! ## Replay protection -/

/-- **Replay protection**: whatever a process goes through, no transaction hash
occurs twice among the bodies of the chain that ends at its current block, and
its index holds exactly the hashes of the stored blocks. -/
theorem replay_protected (hinj : Function.Injective cc.hash.headerHash) {bc : BlockChain H}
    (hr : Reaches (Process.step cc) (fun _ _ => True) Process.fresh (.up bc)) :
    ((chainEndingAt bc.storage bc.currentBlock).flatMap fun b => txHashes b.body).Nodup ∧
      ∀ t, t ∈ bc.storage.executedTransaction ↔
        ∃ bh b, bc.storage.getBlock bh = some b ∧ t ∈ txHashes b.body := by
  obtain ⟨bs, hst, hc⟩ := guarded_reachable hinj hr
  refine ⟨?_, fun t => hst.mem_executed_iff hc⟩
  rw [hst.chainEndingAt_eq]
  exact hst.nodup

/-! ## A run that meets a replay -/

/-- One shard, blocks of ten transactions. -/
def sampleConfig : ChainConfig FreeHash :=
  { hash := freeHash, shardID := 0, shardNums := 1, blockSize := 10,
    useBlocksizeInBytes := false, blocksizeInBytes := 0, shardNum := 1 }

/-- A payment of five. -/
def sampleTransaction : Transaction := newTransaction "a" "b" 5 0 [1]

/-- The block that holds the payment, on top of the genesis block. -/
def sampleBlock : Block FreeHash :=
  let bh : BlockHeader FreeHash :=
    { parentBlockHash := (newGenisisBlock sampleConfig).hash
      stateRoot := (Finmap.insert "b" ⟨0, initBalance + 5⟩
        (Finmap.insert "a" ⟨0, initBalance - 5⟩ ∅))
      txRoot := {[1]}
      bloom := {1}
      number := 1
      time := 7
      miner := 0 }
  { header := bh, body := [some sampleTransaction], hash := freeHash.headerHash bh }

/-- Whether the process is up at a height, with a hash in its index. -/
def Process.at (n : ℕ) (t : Bytes) : Process FreeHash → Bool
  | .up bc => bc.currentBlock.header.number = n && decide (t ∈ bc.storage.executedTransaction)
  | .down _ => false

/-- The payment is committed, the index is lost in a restart and rebuilt, and the
payment comes again: the second proposal is empty and accounts are added. -/
theorem replay_protected_restart :
    ∃ bc : BlockChain FreeHash, (Process.up bc).at 2 [1] = true ∧
      ((chainEndingAt bc.storage bc.currentBlock).flatMap fun b => txHashes b.body).Nodup ∧
      ∀ t, t ∈ bc.storage.executedTransaction ↔
        ∃ bh b, bc.storage.getBlock bh = some b ∧ t ∈ txHashes b.body := by
  have hrun : ∃ p, Reaches (Process.step sampleConfig) (fun _ _ => True) Process.fresh p ∧
      p.at 2 [1] = true :=
    Reaches.exists_of_runWith (P := fun p => Process.at 2 [1] p = true) (show
      (runWith (Process.step sampleConfig) (fun _ _ => True) Process.fresh
        [.restart ∅, .addTxs2Pool [some sampleTransaction], .addBlock (some sampleBlock),
          .stop, .restart ∅, .addBlock (some sampleBlock),
          .addTxs2Pool [some sampleTransaction], .generateBlock 0 9,
          .addAccounts ["c"] [⟨0, 3⟩]]).any _ = true by decide)
  obtain ⟨p, hr, hp⟩ := hrun
  rcases p with bc | file
  · exact ⟨bc, hp, replay_protected freeHash_injective hr⟩
  · cases hp

end BlockEmulator
