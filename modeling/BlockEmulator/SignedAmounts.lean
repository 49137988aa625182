import BlockEmulator.BlockExecution
import BlockEmulator.Replay

/-!
# Balances and negative amounts

The sender's balance is compared with the amount before it is deducted, the recipient's
is not looked at, and validation lets negative amounts through. An amount below zero is
then taken from the recipient.

* `Execution.Covered` — the recipient has what a negative amount takes from it.
* `settle_nonneg_iff` — **a turn leaves no balance negative** exactly where it is covered.
* `balances_nonneg` — in runs whose accepted blocks are covered, and whose installed
  accounts are not negative, no stored account is negative.
-/

namespace BlockEmulator

open StepSystem

/-! ## One turn -/

/-- Whether the recipient, where it is credited, has what a negative amount takes from
it. A payment to oneself takes nothing. -/
def Execution.Covered (place : Address → ℕ) (e : Execution) : Prop :=
  e.tx.homes place e.shard e.tx.recipient = e.shard →
    -e.tx.amount ≤ e.before e.tx.recipient ∨
      (e.tx.sender = e.tx.recipient ∧ e.tx.relayed = false)

instance (place : Address → ℕ) : DecidablePred (Execution.Covered place) :=
  fun _ => inferInstanceAs (Decidable (_ → _))

section

variable {place : Address → ℕ} {sid : ℕ} {bal : Address → ℤ} {tx : Transaction}

theorem credit_nonneg_iff (h : ∀ a, 0 ≤ bal a) :
    (∀ a, 0 ≤ credit place sid bal tx a) ↔
      (place tx.recipient = sid → 0 ≤ bal tx.recipient + tx.amount) := by
  rw [credit]
  split
  · rename_i hhome
    refine ⟨fun hall _ => ?_, fun hr a => ?_⟩
    · simpa using hall tx.recipient
    · rw [Function.update_apply]
      split
      · exact hr hhome
      · exact h a
  · rename_i hhome
    exact iff_of_true h fun hp => absurd hp hhome

/-- **A turn leaves no balance negative** exactly where it is covered. -/
theorem settle_nonneg_iff (h : ∀ a, 0 ≤ bal a) :
    (∀ a, 0 ≤ settle (tx.homes place sid) sid bal tx a) ↔
      (⟨sid, tx, bal⟩ : Execution).Covered place := by
  rw [Execution.Covered, settle]
  dsimp only
  split
  · rename_i hpays
    split
    · -- it is not executed, and its amount is positive
      rename_i hlt
      have hpos : 0 < tx.amount := lt_of_le_of_lt (h tx.sender) hlt
      refine iff_of_true h fun _ => .inl ?_
      linarith only [hpos, h tx.recipient]
    · rename_i hle
      have hpaid : ∀ a, 0 ≤ Function.update bal tx.sender (bal tx.sender - tx.amount) a := by
        intro a
        rw [Function.update_apply]
        split
        · exact sub_nonneg.mpr (not_lt.mp hle)
        · exact h a
      rw [credit_nonneg_iff hpaid]
      refine imp_congr_right fun _ => ?_
      by_cases hself : tx.sender = tx.recipient
      · refine iff_of_true ?_ (.inr ⟨hself, hpays.1⟩)
        rw [← hself, Function.update_self]
        linarith only [h tx.sender]
      · rw [Function.update_of_ne (Ne.symm hself), or_iff_left fun hs => hself hs.1,
          neg_le_iff_add_nonneg]
  · rename_i hpays
    rw [credit_nonneg_iff h]
    refine imp_congr_right fun hhome => ?_
    have hno : ¬ (tx.sender = tx.recipient ∧ tx.relayed = false) :=
      fun hs => hpays ⟨hs.2, hs.1 ▸ hhome⟩
    rw [or_iff_left hno, neg_le_iff_add_nonneg]

/-- What the injector reads is covered. -/
theorem Execution.covered_of_nonneg {e : Execution} (h : ∀ a, 0 ≤ e.before a)
    (hv : 0 ≤ e.tx.amount) : e.Covered place :=
  fun _ => .inl ((neg_nonpos.mpr hv).trans (h _))

/-- A list of turns that are covered. -/
theorem foldl_settle_nonneg_of_covered {txs : List Transaction} (h : ∀ a, 0 ≤ bal a)
    (hcov : ∀ e ∈ executions place sid bal txs, e.Covered place) (a : Address) :
    0 ≤ txs.foldl (fun bal tx => settle (tx.homes place sid) sid bal tx) bal a := by
  induction txs generalizing bal with
  | nil => exact h a
  | cons tx txs ih =>
    rw [executions, List.forall_mem_cons] at hcov
    exact ih ((settle_nonneg_iff h).mpr hcov.1) hcov.2

end

/-! ## What is stored -/

/-- Whether no stored account is negative. -/
def NonNegative (st : Accounts) : Prop := ∀ a s, st.lookup a = some s → 0 ≤ s.balance

theorem nonNegative_iff {st : Accounts} : NonNegative st ↔ ∀ a, 0 ≤ balanceOf st a := by
  refine forall_congr' fun a => ?_
  rw [balanceOf]
  cases st.lookup a with
  | none => exact iff_of_true (fun s hs => absurd hs (Option.some_ne_none s).symm) (by decide)
  | some s => exact ⟨fun h => h s rfl, fun h t ht => Option.some.inj ht ▸ h⟩

variable {H : Type} {cc : ChainConfig H}

theorem installAccounts_nonNegative {bc : BlockChain H} {ac : List Address}
    {as : List AccountState} {st rt : Accounts} (hst : NonNegative st)
    (has : ∀ s ∈ as, 0 ≤ s.balance) (h : bc.installAccounts cc ac as st = some rt) :
    NonNegative rt := by
  induction ac generalizing as st with
  | nil =>
    obtain rfl := Option.some.inj h
    exact hst
  | cons addr ac ih =>
    rw [BlockChain.installAccounts.eq_def] at h
    dsimp only at h
    split at h
    · cases as with
      | nil => cases h
      | cons s as =>
        refine ih (nonNegative_iff.mpr fun a => ?_) (fun t ht => has t (List.mem_cons_of_mem _ ht)) h
        rw [BlockChain.balanceOf_insert, Function.update_apply]
        split
        · exact has s List.mem_cons_self
        · exact nonNegative_iff.mp hst a
    · exact ih hst (fun s hs => has s (List.mem_of_mem_tail hs)) h

variable [DecidableEq H]

/-- Whether no account below a stored block is negative. -/
def Storage.NonNegative (s : Storage H) : Prop :=
  ∀ h b, s.getBlock h = some b → BlockEmulator.NonNegative b.header.stateRoot

/-- Whether a process has no negative account, below its current block or a stored one. -/
def Process.NonNegative : Process H → Prop
  | .up bc =>
    BlockEmulator.NonNegative bc.currentBlock.header.stateRoot ∧ bc.storage.NonNegative
  | .down file => file.NonNegative

/-- The account states that an action installs. -/
def ChainAction.installed : ChainAction H → List AccountState
  | .addAccounts _ as => as
  | _ => []

/-- What is executed with the block that an action adds, if it is accepted. -/
def ChainAction.turns (cc : ChainConfig H) : Process H → ChainAction H → List Execution
  | .up bc, .addBlock (some b) =>
    match bc.addBlock cc (some b) with
    | some (.ok _) =>
      executions (bc.getPartitionMap cc) cc.shardID
        (balanceOf bc.currentBlock.header.stateRoot) (b.body.filterMap id)
    | _ => []
  | _, _ => []

/-- The placement of a process. -/
def Process.place (cc : ChainConfig H) : Process H → Address → ℕ
  | .up bc => bc.getPartitionMap cc
  | .down _ => fun key => addr2ShardWithShardNum cc.hash key cc.shardNum

/-- What an action has to meet: an installed account is not negative, and an accepted
block is covered. -/
def ChainAction.Covered (cc : ChainConfig H) (p : Process H) (a : ChainAction H) : Prop :=
  (∀ s ∈ a.installed, 0 ≤ s.balance) ∧ ∀ e ∈ a.turns cc p, e.Covered (p.place cc)

instance (cc : ChainConfig H) (p : Process H) (a : ChainAction H) :
    Decidable (a.Covered cc p) :=
  inferInstanceAs (Decidable (_ ∧ _))

theorem Storage.NonNegative.insert {s s' : Storage H} {b : Block H} (h : s.NonNegative)
    (hs : s.addBlock b = some s') (hb : BlockEmulator.NonNegative b.header.stateRoot) :
    s'.NonNegative := by
  intro k c hc
  rw [Storage.getBlock_insert hs] at hc
  split at hc
  · obtain rfl := Option.some.inj hc
    exact hb
  · exact h k c hc

namespace Process

variable {p q : Process H} {bc bc' : BlockChain H}

theorem NonNegative.down (h : (Process.up bc).NonNegative) :
    (Process.down bc.storage).NonNegative := h.2

theorem NonNegative.addBlock (h : (Process.up bc).NonNegative) {b : Option (Block H)}
    (hcov : (ChainAction.addBlock b).Covered cc (.up bc))
    (hadd : bc.addBlock cc b = some (.ok bc')) : (Process.up bc').NonNegative := by
  obtain ⟨b, storage, rfl, hv, hs, rfl⟩ := BlockChain.addBlock_eq_ok hadd
  obtain ⟨-, -, -, -, hbody, hroot⟩ := BlockChain.isValidBlock_eq_ok.mp hv
  obtain ⟨txs, htxs, -, -⟩ := BlockChain.checkBody_eq_ok.mp hbody
  have hturns := hcov.2
  rw [ChainAction.turns, hadd] at hturns
  dsimp only at hturns
  rw [htxs, List.filterMap_map, Function.id_comp, List.filterMap_some] at hturns
  rw [htxs] at hroot
  have hb : BlockEmulator.NonNegative b.header.stateRoot := by
    -- the accepted root is the one that execution gives
    refine nonNegative_iff.mpr fun a => ?_
    rw [BlockChain.getUpdateStatusTrie_settles hroot]
    exact foldl_settle_nonneg_of_covered (nonNegative_iff.mp h.1) hturns a
  exact ⟨hb, h.2.insert hs hb⟩

theorem NonNegative.addAccounts (h : (Process.up bc).NonNegative) {ac : List Address}
    {as : List AccountState} (has : ∀ s ∈ as, 0 ≤ s.balance)
    (hadd : bc.addAccounts cc ac as = some bc') : (Process.up bc').NonNegative := by
  obtain ⟨b, storage, -, -, -, -, hs, hroot, rfl⟩ := BlockChain.addAccounts_eq_some hadd
  have hb := installAccounts_nonNegative h.1 has hroot
  exact ⟨hb, h.2.insert hs hb⟩

/-- A file is opened at one of its blocks, or at the genesis block. -/
theorem NonNegative.newBlockChain {file : Storage H} (h : file.NonNegative)
    (hnew : BlockChain.newBlockChain cc file = some bc) : (Process.up bc).NonNegative := by
  rw [BlockChain.newBlockChain] at hnew
  obtain ⟨s, hs, hnew⟩ := Option.bind_eq_some_iff.mp hnew
  have hopened : s.NonNegative := by
    rw [Storage.newStorage_eq_some hs]
    exact h
  split at hnew
  · obtain ⟨s, hs, hnew⟩ := Option.bind_eq_some_iff.mp hnew
    obtain ⟨curHash, -, hnew⟩ := Option.bind_eq_some_iff.mp hnew
    obtain ⟨curb, hget, rfl⟩ := Option.map_eq_some_iff.mp hnew
    have hgenesis : BlockEmulator.NonNegative (BlockChain.newGenisisBlock cc).header.stateRoot :=
      fun a s hs => by cases hs
    have hstored : s.NonNegative := hopened.insert hs hgenesis
    exact ⟨hstored _ _ hget, hstored⟩
  · obtain ⟨curb, hget, rfl⟩ := Option.map_eq_some_iff.mp hnew
    exact ⟨hopened _ _ hget, hopened⟩

/-- **Every covered step** keeps accounts from becoming negative. -/
theorem NonNegative.step {a : ChainAction H} (hp : p.NonNegative) (hcov : a.Covered cc p)
    (h : Process.step cc p a = some q) : q.NonNegative := by
  cases step_move h with
  | ended => exact hp.down
  | kept bc bc' a w _ hb hs =>
    rw [NonNegative, hb, hs]
    exact hp
  | added b bc bc' hadd => exact hp.addBlock hcov hadd
  | installed ac as bc bc' hadd => exact hp.addAccounts hcov.1 hadd
  | switched => exact hp
  | notOpened => exact hp
  | opened file index bc hi hnew =>
    have hfile : Storage.NonNegative { file with executedTransaction := index } := hp
    exact NonNegative.newBlockChain hfile hnew

end Process

/-- **Balances stay non-negative** in every run whose accepted blocks are covered. -/
theorem balances_nonneg (cc : ChainConfig H) {p : Process H}
    (hr : Reaches (Process.step cc) (fun p a => a.Covered cc p) Process.fresh p) :
    p.NonNegative :=
  hr.invariant Process.NonNegative (fun _ _ h => by cases h)
    fun _ _ _ hp hcov h => hp.step hcov h

/-! ## An amount below zero -/

/-- Whether a process holds a state of an account below its current block. -/
def Process.holds (a : Address) (s : AccountState) : Process FreeHash → Bool
  | .up bc => bc.currentBlock.header.stateRoot.lookup a = some s
  | .down _ => false

/-- `b` pays `a` an amount, in a shard of its own. -/
def signedTransaction (amount : ℤ) : Transaction := newTransaction "b" "a" amount 0 [1]

/-- The block that holds it, on top of the genesis block. -/
def signedBlock (amount : ℤ) : Block FreeHash :=
  let bh : BlockHeader FreeHash :=
    { parentBlockHash := (BlockChain.newGenisisBlock sampleConfig).hash
      stateRoot := (Finmap.insert "a" ⟨0, initBalance + amount⟩
        (Finmap.insert "b" ⟨0, initBalance - amount⟩ ∅))
      txRoot := {[1]}
      bloom := {1}
      number := 1
      time := 7
      miner := 0 }
  { header := bh, body := [some (signedTransaction amount)], hash := freeHash.headerHash bh }

/-- `a` gives `b` three, and an account with nothing is installed. -/
theorem balances_nonneg_signed :
    ∃ p : Process FreeHash, p.holds "a" ⟨0, initBalance - 3⟩ = true ∧ p.NonNegative := by
  obtain ⟨p, hr, hp⟩ := Reaches.exists_of_runWith
    (P := fun p => p.holds "a" ⟨0, initBalance - 3⟩ = true) (show
      (runWith (Process.step sampleConfig) (fun p a => a.Covered sampleConfig p) Process.fresh
        [.restart ∅, .addBlock (some (signedBlock (-3))), .addAccounts ["c"] [⟨0, 0⟩]]).any
        _ = true by decide +kernel)
  exact ⟨p, hp, balances_nonneg sampleConfig hr⟩

/-- Not so in all runs whose installed accounts are not negative: `a` gives more than it
has. -/
theorem balances_negative :
    ¬ ∀ p : Process FreeHash,
      Reaches (Process.step sampleConfig) (fun _ a => ∀ s ∈ a.installed, 0 ≤ s.balance)
        Process.fresh p → p.NonNegative := by
  intro h
  obtain ⟨p, hr, hp⟩ := Reaches.exists_of_runWith
    (P := fun p => p.holds "a" ⟨0, -1⟩ = true) (show
      (runWith (Process.step sampleConfig)
        (fun _ a => ∀ s ∈ a.installed, 0 ≤ s.balance) Process.fresh
        [.restart ∅, .addBlock (some (signedBlock (-(initBalance + 1))))]).any
        _ = true by decide +kernel)
  cases p with
  | up bc => exact absurd ((h _ hr).1 _ _ (of_decide_eq_true hp)) (by decide)
  | down file => cases hp

end BlockEmulator
