import BlockEmulator.Balances
import BlockEmulator.RelayShard

/-!
# What execution does, transaction by transaction

`executions` pairs every transaction of a block with the balances at its turn: those of
the trie that the loop of `GetUpdateStatusTrie` has reached (`executions_turn`).

* `getUpdateStatusTrie_isSome_iff` — execution goes through exactly where every amount
  that is read is there.
* `getUpdateStatusTrie_lookup` — an account is written only where it is an end of a
  transaction and counts as at home.
* `execution_effect` — **what a block does** whose transactions are where their phases
  belong: to balances, to what the shard holds, and to all other accounts.
-/

namespace BlockEmulator

/-! ## Turns -/

/-- A transaction that is executed in a shard. -/
structure Execution where
  /-- the shard -/
  shard : ℕ
  /-- the transaction -/
  tx : Transaction
  /-- the balances at its turn -/
  before : Address → ℤ

/-- What is executed with a block. -/
def executions (place : Address → ℕ) (sid : ℕ) :
    (Address → ℤ) → List Transaction → List Execution
  | _, [] => []
  | bal, tx :: txs =>
    ⟨sid, tx, bal⟩ :: executions place sid (settle (tx.homes place sid) sid bal tx) txs

section

variable {place : Address → ℕ} {sid : ℕ}

@[simp] theorem executions_tx (place : Address → ℕ) (sid : ℕ) (bal : Address → ℤ)
    (txs : List Transaction) : (executions place sid bal txs).map (·.tx) = txs := by
  induction txs generalizing bal with
  | nil => rfl
  | cons tx txs ih => rw [executions, List.map_cons, ih]

theorem executions_shard {bal : Address → ℤ} {txs : List Transaction} :
    ∀ e ∈ executions place sid bal txs, e.shard = sid := by
  induction txs generalizing bal with
  | nil => exact fun _ h => absurd h List.not_mem_nil
  | cons tx txs ih =>
    intro e he
    rcases List.mem_cons.mp he with rfl | he
    · rfl
    · exact ih e he

theorem executions_append (bal : Address → ℤ) (xs ys : List Transaction) :
    executions place sid bal (xs ++ ys) = executions place sid bal xs ++
      executions place sid
        (xs.foldl (fun bal tx => settle (tx.homes place sid) sid bal tx) bal) ys := by
  induction xs generalizing bal with
  | nil => rfl
  | cons tx xs ih => rw [List.cons_append, executions, executions, ih, List.foldl_cons,
      List.cons_append]

end

namespace BlockChain

variable {H : Type} {cc : ChainConfig H} {bc : BlockChain H} {i : ℕ} {st st' root : Accounts}
  {cnt cnt' : ℕ} {tx : Transaction} {txs : List Transaction} {a : Address}

/-- **The turn of a transaction**: its balances are those of the trie that the loop has
reached. -/
theorem executions_turn {xs ys : List Transaction}
    (h : executeTxs cc bc 0 (xs.map some) st 0 = some (st', cnt)) :
    executions (bc.getPartitionMap cc) cc.shardID (balanceOf st) (xs ++ tx :: ys) =
      executions (bc.getPartitionMap cc) cc.shardID (balanceOf st) xs ++
        ⟨cc.shardID, tx, balanceOf st'⟩ ::
          executions (bc.getPartitionMap cc) cc.shardID
            (settle (tx.homes (bc.getPartitionMap cc) cc.shardID) cc.shardID (balanceOf st') tx)
            ys := by
  rw [executions_append, ← (executeTxs_settles h).1, executions]

/-! ## Where execution goes through -/

/-- Whether execution reads the amount of a transaction. -/
def Touches (cc : ChainConfig H) (bc : BlockChain H) (tx : Transaction) : Prop :=
  (tx.relayed = false ∧ bc.isHome cc tx.sender) ∨ bc.isHome cc tx.recipient ∨ tx.hasBroker = true

instance (cc : ChainConfig H) (bc : BlockChain H) (tx : Transaction) :
    Decidable (bc.Touches cc tx) :=
  inferInstanceAs (Decidable (_ ∨ _ ∨ _))

theorem executeRecipient_isSome_iff :
    (executeRecipient cc bc i tx st cnt).isSome = true ↔
      (bc.isHome cc tx.recipient ∨ tx.hasBroker = true → tx.value.isSome = true) := by
  rw [executeRecipient]
  split
  · rename_i h
    rw [Option.isSome_map]
    exact ⟨fun hv _ => hv, fun hv => hv h⟩
  · rename_i h
    exact iff_of_true rfl fun hh => absurd hh h

/-- The loop body goes through where the amount is there, if it is read. -/
theorem executeTx_isSome_iff :
    (executeTx cc bc i tx st cnt).isSome = true ↔ (bc.Touches cc tx → tx.value.isSome = true) := by
  rw [executeTx, Touches]
  split
  · rename_i hpays
    have htouch : (tx.relayed = false ∧ bc.isHome cc tx.sender) ∨
        bc.isHome cc tx.recipient ∨ tx.hasBroker = true :=
      hpays.2.elim (fun h => .inl ⟨hpays.1, h⟩) fun h => .inr (.inr h)
    cases hv : tx.value with
    | none =>
      refine iff_of_false ?_ fun h => ?_
      · simp
      · simpa using h htouch
    | some v =>
      refine iff_of_true ?_ fun _ => rfl
      rw [Option.bind_some]
      split
      · rfl
      · rw [executeRecipient_isSome_iff, hv]
        exact fun _ => rfl
  · rename_i hpays
    rw [executeRecipient_isSome_iff]
    refine ⟨fun h ht => h (ht.resolve_left fun hs => hpays ⟨hs.1, .inl hs.2⟩), fun h hr => h (.inr hr)⟩

theorem executeTxs_isSome_iff {body : List (Option Transaction)} :
    (executeTxs cc bc i body st cnt).isSome = true ↔
      ∀ p ∈ body, ∃ tx, p = some tx ∧ (bc.Touches cc tx → tx.value.isSome = true) := by
  induction body generalizing i st cnt with
  | nil => exact iff_of_true rfl fun _ h => absurd h List.not_mem_nil
  | cons p body ih =>
    rcases p with _ | tx
    · refine iff_of_false (by simp [executeTxs]) fun h => ?_
      obtain ⟨tx, htx, -⟩ := h none List.mem_cons_self
      cases htx
    · rw [executeTxs, List.forall_mem_cons]
      have hone : (∃ t, some tx = some t ∧ (bc.Touches cc t → t.value.isSome = true)) ↔
          (executeTx cc bc i tx st cnt).isSome = true := by
        rw [executeTx_isSome_iff]
        simp
      rw [hone]
      cases hrun : executeTx cc bc i tx st cnt with
      | none => simp
      | some r => simpa using ih

/-- **Execution goes through** exactly where every amount that is read is there. -/
theorem getUpdateStatusTrie_isSome_iff {body : List (Option Transaction)} :
    (getUpdateStatusTrie cc bc body).isSome = true ↔
      ∀ p ∈ body, ∃ tx, p = some tx ∧ (bc.Touches cc tx → tx.value.isSome = true) := by
  rw [getUpdateStatusTrie]
  split
  · rename_i hempty
    rw [List.isEmpty_iff.mp hempty]
    exact iff_of_true rfl fun _ h => absurd h List.not_mem_nil
  · rw [Option.isSome_map, executeTxs_isSome_iff]

/-! ## What is written -/

/-- Whether a transaction may write an account. -/
def Writes (cc : ChainConfig H) (bc : BlockChain H) (tx : Transaction) (a : Address) : Prop :=
  (a = tx.sender ∨ a = tx.recipient) ∧ (bc.isHome cc a ∨ tx.hasBroker = true)

theorem executeRecipient_lookup (h : executeRecipient cc bc i tx st cnt = some (st', cnt'))
    (ha : ¬ bc.Writes cc tx a) : st'.lookup a = st.lookup a := by
  rw [executeRecipient] at h
  split at h
  · rename_i hhome
    obtain ⟨v, -, heq⟩ := Option.map_eq_some_iff.mp h
    obtain ⟨rfl, rfl⟩ := Prod.mk.inj heq
    have hne : a ≠ tx.recipient := fun heq => ha ⟨.inr heq, heq ▸ hhome⟩
    exact Finmap.lookup_insert_of_ne _ hne
  · obtain ⟨rfl, rfl⟩ := Prod.mk.inj (Option.some.inj h)
    rfl

theorem executeTx_lookup (h : executeTx cc bc i tx st cnt = some (st', cnt'))
    (ha : ¬ bc.Writes cc tx a) : st'.lookup a = st.lookup a := by
  rw [executeTx] at h
  split at h
  · rename_i hpays
    obtain ⟨v, -, h⟩ := Option.bind_eq_some_iff.mp h
    split at h
    · obtain ⟨rfl, rfl⟩ := Prod.mk.inj (Option.some.inj h)
      rfl
    · have hne : a ≠ tx.sender := fun heq => ha ⟨.inl heq, heq ▸ hpays.2⟩
      rw [executeRecipient_lookup h ha, Finmap.lookup_insert_of_ne _ hne]
  · exact executeRecipient_lookup h ha

theorem executeTxs_lookup (h : executeTxs cc bc i (txs.map some) st cnt = some (st', cnt'))
    (ha : ∀ tx ∈ txs, ¬ bc.Writes cc tx a) : st'.lookup a = st.lookup a := by
  induction txs generalizing i st cnt with
  | nil =>
    obtain ⟨rfl, rfl⟩ := Prod.mk.inj (Option.some.inj h)
    rfl
  | cons tx txs ih =>
    rw [List.map_cons, executeTxs] at h
    obtain ⟨⟨st₁, cnt₁⟩, h₁, h⟩ := Option.bind_eq_some_iff.mp h
    rw [ih h fun t ht => ha t (List.mem_cons_of_mem _ ht),
      executeTx_lookup h₁ (ha tx List.mem_cons_self)]

/-- **What is not written** is as it was, nonce included. -/
theorem getUpdateStatusTrie_lookup (h : getUpdateStatusTrie cc bc (txs.map some) = some root)
    (ha : ∀ tx ∈ txs, ¬ bc.Writes cc tx a) :
    root.lookup a = bc.currentBlock.header.stateRoot.lookup a := by
  rw [getUpdateStatusTrie] at h
  split at h
  · obtain rfl := Option.some.inj h
    rfl
  · obtain ⟨⟨st', cnt'⟩, hrun, rfl⟩ := Option.map_eq_some_iff.mp h
    split
    · rfl
    · exact executeTxs_lookup hrun ha

end BlockChain

/-! ## The effect of a block -/

/-- A first phase that is executed here, with its second phase elsewhere. -/
def Execution.SentOut (place : Address → ℕ) (e : Execution) : Prop :=
  e.tx.relayed = false ∧ place e.tx.recipient ≠ e.shard ∧ e.tx.amount ≤ e.before e.tx.sender

instance (place : Address → ℕ) : DecidablePred (Execution.SentOut place) :=
  fun _ => inferInstanceAs (Decidable (_ ∧ _ ∧ _))

/-- What is true of a transaction that the injector or a relay brings to a shard. -/
structure Transaction.Routed (place : Address → ℕ) (sid : ℕ) (tx : Transaction) : Prop where
  /-- it is not a broker transaction -/
  hasBroker : tx.hasBroker = false
  /-- the amount is not negative -/
  value : ∃ v, tx.value = some v ∧ 0 ≤ v
  /-- it is where its phase belongs -/
  placed : tx.Placed place sid

/-- The effect of some transactions on the accounts of a shard. -/
structure Effect (place : Address → ℕ) (sid : ℕ) (txs : List Transaction) (st root : Accounts) :
    Prop where
  /-- balances do not become negative -/
  nonneg : (∀ a, 0 ≤ balanceOf st a) → ∀ a, 0 ≤ balanceOf root a
  /-- what the addresses at home here hold changes by what comes in, and by the first
  phases that are executed, with their second phases elsewhere -/
  held : ∀ addresses : Finset Address,
    (∀ tx ∈ txs, tx.sender ∈ addresses ∧ tx.recipient ∈ addresses) →
    held addresses place sid (balanceOf root) = held addresses place sid (balanceOf st) +
      ((txs.filter (·.relayed)).map (·.amount)).sum -
      (((executions place sid (balanceOf st) txs).filter fun e => e.SentOut place).map
        (·.tx.amount)).sum
  /-- accounts that are no ends, or not at home here, are as they were -/
  frame : ∀ a, (∀ tx ∈ txs, a ≠ tx.sender ∧ a ≠ tx.recipient) ∨ place a ≠ sid →
    root.lookup a = st.lookup a

section

variable {place : Address → ℕ} {sid : ℕ} {txs : List Transaction}

theorem Transaction.Routed.amount_nonneg {tx : Transaction} (h : tx.Routed place sid) :
    0 ≤ tx.amount := by
  obtain ⟨v, hv, hle⟩ := h.value
  rw [Transaction.amount, hv, Option.getD_some]
  exact hle

theorem sum_inflow (txs : List Transaction) :
    (txs.map inflow).sum = ((txs.filter (·.relayed)).map (·.amount)).sum := by
  induction txs with
  | nil => rfl
  | cons tx txs ih =>
    rw [List.map_cons, List.sum_cons, ih, inflow]
    cases h : tx.relayed
    · simp [h]
    · simp [h]

/-- What goes out is paid, or it is minted. -/
theorem sum_outflow_eq (bal : Address → ℤ) (h : ∀ tx ∈ txs, tx.Routed place sid) :
    (txs.map (outflow place sid)).sum = minted place sid bal txs +
      (((executions place sid bal txs).filter fun e => e.SentOut place).map
        (·.tx.amount)).sum := by
  induction txs generalizing bal with
  | nil => rfl
  | cons tx txs ih =>
    obtain ⟨hbroker, -, hplaced⟩ := h tx List.mem_cons_self
    rw [List.map_cons, List.sum_cons, minted, executions, Transaction.homes_of_hasBroker hbroker,
      ih (settle place sid bal tx) fun t ht => h t (List.mem_cons_of_mem _ ht), outflow, overdraft]
    by_cases hhome : place tx.recipient = sid
    · have hno : ¬ (⟨sid, tx, bal⟩ : Execution).SentOut place := fun hs => hs.2.1 hhome
      have hfunded : tx.Funded place sid bal := fun hne => absurd hhome hne
      rw [if_neg (not_not.mpr hhome), if_pos hfunded, List.filter_cons_of_neg (by simpa using hno)]
      ring
    · -- it is in its first phase
      have hrel : tx.relayed = false := by
        by_contra hrel
        exact hhome (hplaced.2 (by simpa using hrel))
      by_cases hpay : tx.amount ≤ bal tx.sender
      · have hout : (⟨sid, tx, bal⟩ : Execution).SentOut place := ⟨hrel, hhome, hpay⟩
        have hfunded : tx.Funded place sid bal := fun _ => hpay
        rw [if_pos hhome, if_pos hfunded, List.filter_cons_of_pos (by simpa using hout),
          List.map_cons, List.sum_cons]
        ring
      · have hno : ¬ (⟨sid, tx, bal⟩ : Execution).SentOut place := fun hs => hpay hs.2.2
        have hfunded : ¬ tx.Funded place sid bal := fun hf => hpay (hf hhome)
        rw [if_pos hhome, if_neg hfunded, List.filter_cons_of_neg (by simpa using hno)]
        ring

end

variable {H : Type}

/-- **What a block does**: for every list of transactions that are routed here, execution
goes through and has the effect of `Effect`. -/
theorem execution_effect (cc : ChainConfig H) (bc : BlockChain H) (txs : List Transaction)
    (h : ∀ tx ∈ txs, tx.Routed (bc.getPartitionMap cc) cc.shardID) :
    ∃ root, bc.getUpdateStatusTrie cc (txs.map some) = some root ∧
      Effect (bc.getPartitionMap cc) cc.shardID txs bc.currentBlock.header.stateRoot root := by
  have hsome : (bc.getUpdateStatusTrie cc (txs.map some)).isSome = true := by
    rw [BlockChain.getUpdateStatusTrie_isSome_iff]
    intro p hp
    obtain ⟨tx, htx, rfl⟩ := List.mem_map.mp hp
    obtain ⟨v, hv, -⟩ := (h tx htx).value
    exact ⟨tx, rfl, fun _ => by rw [hv]; rfl⟩
  obtain ⟨root, hroot⟩ := Option.isSome_iff_exists.mp hsome
  have hbal := BlockChain.getUpdateStatusTrie_balanceOf (fun tx htx => (h tx htx).hasBroker) hroot
  refine ⟨root, hroot, fun hnonneg => ?_, fun addresses hends => ?_, fun a ha => ?_⟩
  · rw [hbal]
    exact foldl_settle_nonneg hnonneg fun tx htx => (h tx htx).amount_nonneg
  -- both sides of the block's books, less what was minted
  · have hheld := held_foldl_settle (balanceOf bc.currentBlock.header.stateRoot)
      fun tx htx => ⟨(hends tx htx).1, (hends tx htx).2, (h tx htx).placed⟩
    rw [sum_inflow, sum_outflow_eq _ h, ← hbal] at hheld
    linarith only [hheld]
  · refine BlockChain.getUpdateStatusTrie_lookup hroot fun tx htx hwrites => ?_
    obtain ⟨hend, hhome⟩ := hwrites
    rcases ha with hno | hno
    · exact hend.elim (hno tx htx).1 (hno tx htx).2
    · rw [(h tx htx).hasBroker] at hhome
      exact hhome.elim hno Bool.noConfusion

/-- `a` pays `b` in the other shard, `b` has paid `a` there, and `a` pays `a`. -/
def threeTransactions : List Transaction :=
  [crossTransaction, { newTransaction "b" "a" 7 1 [2] with relayed := true },
    newTransaction "a" "a" 3 2 [3]]

theorem execution_effect_three :
    ∃ root, (genesisChain fourNodesChain).getUpdateStatusTrie fourNodesChain
        (threeTransactions.map some) = some root ∧
      Effect ((genesisChain fourNodesChain).getPartitionMap fourNodesChain) 0
        threeTransactions ∅ root := by
  refine execution_effect fourNodesChain (genesisChain fourNodesChain) threeTransactions ?_
  rw [threeTransactions, List.forall_mem_cons, List.forall_mem_cons, List.forall_mem_singleton]
  refine ⟨⟨rfl, ⟨5, rfl, by decide⟩, ?_⟩, ⟨rfl, ⟨7, rfl, by decide⟩, ?_⟩,
    ⟨rfl, ⟨3, rfl, by decide⟩, ?_⟩⟩
  · decide +kernel
  · decide +kernel
  · decide +kernel

end BlockEmulator
