import BlockEmulator.Replay

/-!
# The hash-linked chain

`ChainLog` is a process beside the blocks that were inserted into its file: those that
`AddBlock` accepted, those that `AddAccounts` made, and the genesis block. Restarts take
none away.

`hash_linked` — **following the parent hashes from the current block** through the
stored blocks gives exactly what was inserted, newest first and down to the genesis
block; the newest-block pointer is the current block's hash, and every block and header
is read back as it was inserted.
-/

namespace BlockEmulator

open StepSystem BlockChain

variable {H : Type}

/-- The bolt file of a process. -/
def Process.file : Process H → Storage H
  | .up bc => bc.storage
  | .down file => file

/-- A process and what was inserted into its file, newest first. -/
structure ChainLog (H : Type) where
  /-- the process -/
  process : Process H
  /-- the blocks, newest first -/
  inserted : List (Block H)

namespace ChainLog

variable [DecidableEq H]

/-- The blocks that a step inserts. -/
def inserts (cc : ChainConfig H) : Process H → ChainAction H → List (Block H)
  | .up bc, .addBlock b =>
    match bc.addBlock cc b with
    | some (.ok _) => b.toList
    | _ => []
  | .up bc, .addAccounts ac as => ((bc.addAccounts cc ac as).map (·.currentBlock)).toList
  | .down file, .restart index =>
    match newBlockChain cc { file with executedTransaction := index } with
    | some _ => if file.newestBlockHash = none then [newGenisisBlock cc] else []
    | none => []
  | _, _ => []

theorem inserts_of_addsNothing {cc : ChainConfig H} {bc : BlockChain H} {a : ChainAction H}
    (h : a.AddsNothing cc bc) : inserts cc (.up bc) a = [] := by
  cases a with
  | addBlock b =>
    rw [inserts]
    split
    · rename_i bc' hadd
      exact absurd hadd (h bc')
    · rfl
  | addAccounts ac as =>
    rw [inserts, show bc.addAccounts cc ac as = none from h]
    rfl
  | _ => rfl

/-- One step of a process, with the blocks it inserts. -/
def step (cc : ChainConfig H) (s : ChainLog H) (a : ChainAction H) : Option (ChainLog H) :=
  (s.process.step cc a).map fun p => ⟨p, inserts cc s.process a ++ s.inserted⟩

/-- A machine that has never run the node. -/
def start : ChainLog H := ⟨.fresh, []⟩

end ChainLog

/-! ## The invariant -/

variable [DecidableEq H] {cc : ChainConfig H}

/-- Whether the header bucket goes with the block bucket. -/
def Storage.HeadersMatch (s : Storage H) : Prop :=
  ∀ h, s.getBlockHeader h = (s.getBlock h).map (·.header)

theorem Storage.HeadersMatch.addBlock {s s' : Storage H} {b : Block H} (h : s.HeadersMatch)
    (hs : s.addBlock b = some s') : s'.HeadersMatch := by
  intro k
  rw [getBlock_insert hs, addBlock_eq_some hs, getBlockHeader]
  split
  · rename_i hk
    rw [hk]
    exact AList.lookup_insert _
  · rename_i hk
    rw [← h k]
    exact AList.lookup_insert_ne hk

theorem Storage.HeadersMatch.newBlockChain {file : Storage H} {bc : BlockChain H}
    (h : file.HeadersMatch) (hnew : BlockChain.newBlockChain cc file = some bc) :
    bc.storage.HeadersMatch := by
  rw [BlockChain.newBlockChain] at hnew
  obtain ⟨s, hs, hnew⟩ := Option.bind_eq_some_iff.mp hnew
  have hopened : s.HeadersMatch := by
    rw [Storage.newStorage_eq_some hs]
    exact h
  split at hnew
  · obtain ⟨s', hs', hnew⟩ := Option.bind_eq_some_iff.mp hnew
    obtain ⟨curHash, -, hnew⟩ := Option.bind_eq_some_iff.mp hnew
    obtain ⟨curb, -, rfl⟩ := Option.map_eq_some_iff.mp hnew
    exact hopened.addBlock hs'
  · obtain ⟨curb, -, rfl⟩ := Option.map_eq_some_iff.mp hnew
    exact hopened

/-- What is true of the inserted blocks. -/
structure ChainLog.Sound (cc : ChainConfig H) (s : ChainLog H) : Prop where
  /-- the file holds exactly the chain of the inserted blocks -/
  stored : Stored cc s.process.file s.inserted
  /-- headers are stored with their blocks -/
  headers : s.process.file.HeadersMatch
  /-- the oldest is the genesis block -/
  genesis : ∀ b ∈ s.inserted.getLast?, b = newGenisisBlock cc
  /-- the newest is the current block, and the index is complete -/
  current : ∀ bc, s.process = .up bc →
    s.inserted.head? = some bc.currentBlock ∧ Complete bc.storage s.inserted

namespace ChainLog.Sound

variable {s : ChainLog H} {p : Process H} {bc bc' : BlockChain H}

theorem start : (ChainLog.start : ChainLog H).Sound cc where
  stored := stored_empty
  headers := fun _ => rfl
  genesis := nofun
  current := nofun

/-- A process stops, or was stopped. -/
theorem down (h : s.Sound cc) {w : Bool} :
    (⟨.down { s.process.file with writable := w }, s.inserted⟩ : ChainLog H).Sound cc where
  stored := h.stored.restrict (Finset.Subset.refl _)
  headers := h.headers
  genesis := h.genesis
  current := nofun

/-- Pool, placements and writability are none of the invariant's. -/
theorem frame {bs : List (Block H)} (h : (⟨.up bc, bs⟩ : ChainLog H).Sound cc)
    (hb : bc'.currentBlock = bc.currentBlock) {w : Bool}
    (hs : bc'.storage = { bc.storage with writable := w }) :
    (⟨.up bc', bs⟩ : ChainLog H).Sound cc where
  stored := by
    rw [Process.file, hs]
    exact h.stored.restrict (Finset.Subset.refl _)
  headers := by
    rw [Process.file, hs]
    exact h.headers
  genesis := h.genesis
  current := by
    rintro _ ⟨⟩
    rw [hb, hs]
    exact h.current bc rfl

/-- The current block is the newest. -/
theorem exists_cons {bs : List (Block H)} (h : (⟨.up bc, bs⟩ : ChainLog H).Sound cc) :
    ∃ cs, bs = bc.currentBlock :: cs ∧ Complete bc.storage (bc.currentBlock :: cs) := by
  obtain ⟨hhead, hc⟩ := h.current bc rfl
  cases bs with
  | nil => cases hhead
  | cons b cs =>
    obtain rfl := Option.some.inj hhead
    exact ⟨cs, rfl, hc⟩

/-- A block on top becomes the current block. -/
theorem push {b : Block H} {cs : List (Block H)}
    (h : (⟨.up bc, bc.currentBlock :: cs⟩ : ChainLog H).Sound cc) (hb : bc'.currentBlock = b)
    (hs : bc.storage.addBlock b = some bc'.storage)
    (hstored : Stored cc bc'.storage (b :: bc.currentBlock :: cs))
    (hc : Complete bc'.storage (b :: bc.currentBlock :: cs)) :
    (⟨.up bc', b :: bc.currentBlock :: cs⟩ : ChainLog H).Sound cc where
  stored := hstored
  headers := h.headers.addBlock hs
  genesis := by
    rw [List.getLast?_cons_cons]
    exact h.genesis
  current := by
    rintro _ ⟨⟩
    exact ⟨congrArg some hb.symm, hc⟩

theorem addBlock (hinj : Function.Injective cc.hash.headerHash) {bs : List (Block H)}
    (h : (⟨.up bc, bs⟩ : ChainLog H).Sound cc) {b : Option (Block H)}
    (hadd : bc.addBlock cc b = some (.ok bc')) :
    (⟨.up bc', b.toList ++ bs⟩ : ChainLog H).Sound cc := by
  obtain ⟨cs, rfl, hc⟩ := h.exists_cons
  obtain ⟨hstored, hc'⟩ := Stored.addBlock hinj h.stored hc hadd
  obtain ⟨b, storage, rfl, -, hs, rfl⟩ := addBlock_eq_ok hadd
  exact h.push rfl hs hstored hc'

theorem addAccounts (hinj : Function.Injective cc.hash.headerHash) {bs : List (Block H)}
    (h : (⟨.up bc, bs⟩ : ChainLog H).Sound cc) {ac : List Address} {as : List AccountState}
    (hadd : bc.addAccounts cc ac as = some bc') :
    (⟨.up bc', bc'.currentBlock :: bs⟩ : ChainLog H).Sound cc := by
  obtain ⟨cs, rfl, hc⟩ := h.exists_cons
  obtain ⟨hstored, hc'⟩ := Stored.addAccounts hinj h.stored hc hadd
  obtain ⟨b, storage, -, -, -, -, hs, -, rfl⟩ := addAccounts_eq_some hadd
  exact h.push rfl hs hstored hc'

/-- A file is opened at its top; an empty one gets the genesis block. -/
theorem newBlockChain (hinj : Function.Injective cc.hash.headerHash) {file : Storage H}
    {bs : List (Block H)} (h : (⟨.down file, bs⟩ : ChainLog H).Sound cc) {index : Finset Bytes}
    (hi : index ⊆ file.executedTransaction)
    (hnew : BlockChain.newBlockChain cc { file with executedTransaction := index } = some bc) :
    (⟨.up bc, (if file.newestBlockHash = none then [newGenisisBlock cc] else []) ++ bs⟩ :
      ChainLog H).Sound cc := by
  have hfile : Stored cc { file with executedTransaction := index } bs :=
    h.stored.restrict (w := file.writable) hi
  obtain ⟨cs, hopen, hstored, hc⟩ := hfile.newBlockChain_opens hinj hnew
  -- the newest block hash is missing exactly where nothing was inserted
  have hbs : (if file.newestBlockHash = none then [newGenisisBlock cc] else []) ++ bs =
      bc.currentBlock :: cs := by
    rw [← hopen, openedChain, show file.newestBlockHash = _ from h.stored.newest]
    cases bs with
    | nil => rfl
    | cons b bs => rfl
  rw [hbs]
  have hheaders : Storage.HeadersMatch { file with executedTransaction := index } := h.headers
  refine ⟨hstored, hheaders.newBlockChain hnew, ?_, ?_⟩
  · rw [← hopen, openedChain]
    split
    · exact fun b hb => (Option.some.inj hb).symm
    · exact h.genesis
  · rintro _ ⟨⟩
    exact ⟨rfl, hc⟩

/-- **Every step keeps the chain.** -/
theorem step (hinj : Function.Injective cc.hash.headerHash) {s t : ChainLog H}
    {a : ChainAction H} (hs : s.Sound cc) (h : s.step cc a = some t) : t.Sound cc := by
  obtain ⟨p, bs⟩ := s
  obtain ⟨q, hq, rfl⟩ := Option.map_eq_some_iff.mp h
  dsimp only at hq ⊢
  cases Process.step_move hq with
  | ended bc a hno =>
    rw [inserts_of_addsNothing hno]
    exact hs.down
  | kept bc bc' a w hno hb hstorage =>
    rw [inserts_of_addsNothing hno]
    exact hs.frame hb hstorage
  | added b bc bc' hadd =>
    rw [inserts, hadd]
    exact hs.addBlock hinj hadd
  | installed ac as bc bc' hadd =>
    rw [inserts, hadd]
    exact hs.addAccounts hinj hadd
  | switched => exact hs.down
  -- nothing is inserted, and no process is up over it
  | notOpened file index hi hnew =>
    rw [inserts, hnew]
    exact ⟨hs.stored.restrict (w := file.writable) hi, hs.headers, hs.genesis, nofun⟩
  | opened file index bc hi hnew =>
    rw [inserts, hnew]
    exact hs.newBlockChain hinj hi hnew

end ChainLog.Sound

/-! ## The chain -/

/-- The chain of a node, over the blocks that were inserted. -/
structure HashLinked (cc : ChainConfig H) (bc : BlockChain H) (inserted : List (Block H)) :
    Prop where
  /-- following the parent hashes from the current block gives what was inserted -/
  chain : chainEndingAt bc.storage bc.currentBlock = inserted
  /-- numbers decrease by one and parent hashes are hashes of parents, down to number `0` -/
  linked : Linked inserted
  /-- the last one is the genesis block -/
  genesis : inserted.getLast? = some (newGenisisBlock cc)
  /-- the newest-block pointer is the hash of the current block -/
  newest : bc.storage.newestBlockHash = some bc.currentBlock.hash
  /-- every block is read back as it was inserted -/
  block : ∀ b ∈ inserted, bc.storage.getBlock b.hash = some b
  /-- every header is read back as it was inserted -/
  header : ∀ b ∈ inserted, bc.storage.getBlockHeader b.hash = some b.header

/-- **The chain is hash-linked** in every run of a process, over all its restarts. -/
theorem hash_linked (cc : ChainConfig H) (hinj : Function.Injective cc.hash.headerHash)
    {s : ChainLog H} (hr : Reaches (ChainLog.step cc) (fun _ _ => True) ChainLog.start s)
    {bc : BlockChain H} (hup : s.process = .up bc) : HashLinked cc bc s.inserted := by
  have hs : s.Sound cc := hr.invariant (ChainLog.Sound cc) ChainLog.Sound.start
    fun _ _ _ hs _ h => hs.step hinj h
  obtain ⟨p, bs⟩ := s
  obtain rfl : p = .up bc := hup
  obtain ⟨cs, rfl, -⟩ := hs.exists_cons
  have hstored : Stored cc bc.storage (bc.currentBlock :: cs) := hs.stored
  refine ⟨hstored.chainEndingAt_eq, hstored.linked, ?_, hstored.newest,
    fun b hb => hstored.getBlock hb, fun b hb => ?_⟩
  · have hlast := List.getLast?_eq_some_getLast (List.cons_ne_nil bc.currentBlock cs)
    rw [hlast, hs.genesis _ hlast]
  · have hheader : bc.storage.getBlockHeader b.hash = (bc.storage.getBlock b.hash).map (·.header) :=
      hs.headers b.hash
    rw [hheader, hstored.getBlock hb, Option.map_some]

/-- Whether a process is up, over so many inserted blocks. -/
def ChainLog.upOver (n : ℕ) (s : ChainLog FreeHash) : Bool :=
  match s.process with
  | .up _ => s.inserted.length = n
  | .down _ => false

/-- A payment, a restart and two installations of accounts. -/
theorem hash_linked_restart :
    ∃ (s : ChainLog FreeHash) (bc : BlockChain FreeHash), s.process = .up bc ∧
      s.inserted.length = 4 ∧ HashLinked sampleConfig bc s.inserted := by
  obtain ⟨s, hr, hs⟩ := Reaches.exists_of_runWith (P := fun s => ChainLog.upOver 4 s = true) (show
    (runWith (ChainLog.step sampleConfig) (fun _ _ => True) ChainLog.start
      [.restart ∅, .addBlock (some sampleBlock), .addAccounts ["c"] [⟨0, 3⟩], .stop,
        .restart ∅, .addBlock (some sampleBlock), .addAccounts ["c"] [⟨0, 4⟩]]).any
      _ = true by decide +kernel)
  obtain ⟨p, bs⟩ := s
  cases p with
  | up bc =>
    exact ⟨_, bc, rfl, of_decide_eq_true hs, hash_linked sampleConfig freeHash_injective hr rfl⟩
  | down file => cases hs

end BlockEmulator
