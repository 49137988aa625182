import BlockEmulator.Routing
import BlockEmulator.Validation
import Mathlib.Algebra.BigOperators.Group.Finset.Basic
import Mathlib.Algebra.Order.BigOperators.Group.Finset
import Mathlib.Algebra.BigOperators.Group.Finset.Piecewise
import Mathlib.Tactic.Linarith
import Mathlib.Tactic.Ring

/-!
# What a block does to balances

Execution reads and writes accounts in a trie, adds the missing ones, and counts what
it modified. All that matters of it is what becomes of the balances:

* `settle` — what one transaction does to the balances of a shard, as functions of
  addresses.
* `getUpdateStatusTrie_settles` — **execution settles the transactions in order**.
* `held_settle` — what the accounts at home in a shard hold together changes by what
  comes in from other shards, less what goes out, and is off by what is sent out
  without being paid (`overdraft`).
* `minted_eq_zero_iff` — nothing is off exactly where all that is sent out is paid.
-/

namespace BlockEmulator

/-! ## Balances as functions -/

/-- The amount of a transaction. -/
def Transaction.amount (tx : Transaction) : ℤ := tx.value.getD 0

variable (place : Address → ℕ) (sid : ℕ)

/-- The recipient is credited where it is at home. -/
def credit (bal : Address → ℤ) (tx : Transaction) : Address → ℤ :=
  if place tx.recipient = sid then
    Function.update bal tx.recipient (bal tx.recipient + tx.amount)
  else bal

/-- What a transaction does to the balances of a shard. -/
def settle (bal : Address → ℤ) (tx : Transaction) : Address → ℤ :=
  if tx.relayed = false ∧ place tx.sender = sid then
    if bal tx.sender < tx.amount then bal
    else credit place sid (Function.update bal tx.sender (bal tx.sender - tx.amount)) tx
  else credit place sid bal tx

/-- What a transaction brings in from another shard. -/
def inflow (tx : Transaction) : ℤ := if tx.relayed then tx.amount else 0

/-- What a transaction sends out to another shard. -/
def outflow (tx : Transaction) : ℤ := if place tx.recipient ≠ sid then tx.amount else 0

theorem sum_outflow (txs : List Transaction) :
    (txs.map (outflow place sid)).sum =
      ((txs.filter fun tx => place tx.recipient ≠ sid).map (·.amount)).sum := by
  induction txs with
  | nil => rfl
  | cons tx txs ih =>
    rw [List.map_cons, List.sum_cons, ih, outflow]
    by_cases h : place tx.recipient = sid
    · simp [h]
    · simp [h]

/-- Whether a transaction is paid if it is sent out. -/
def Transaction.Funded (bal : Address → ℤ) (tx : Transaction) : Prop :=
  place tx.recipient ≠ sid → tx.amount ≤ bal tx.sender

instance (bal : Address → ℤ) (tx : Transaction) : Decidable (tx.Funded place sid bal) :=
  inferInstanceAs (Decidable (_ → _))

/-- What a transaction sends out without being paid. -/
def overdraft (bal : Address → ℤ) (tx : Transaction) : ℤ :=
  if tx.Funded place sid bal then 0 else tx.amount

/-- Whether all that is sent out is paid at its turn. -/
def AllFunded : (Address → ℤ) → List Transaction → Prop
  | _, [] => True
  | bal, tx :: txs => tx.Funded place sid bal ∧ AllFunded (settle place sid bal tx) txs

/-- What some transactions send out without being paid. -/
def minted : (Address → ℤ) → List Transaction → ℤ
  | _, [] => 0
  | bal, tx :: txs => overdraft place sid bal tx + minted (settle place sid bal tx) txs

instance decidableAllFunded :
    (bal : Address → ℤ) → (txs : List Transaction) → Decidable (AllFunded place sid bal txs)
  | _, [] => inferInstanceAs (Decidable True)
  | bal, tx :: txs =>
    haveI := decidableAllFunded (settle place sid bal tx) txs
    inferInstanceAs (Decidable (_ ∧ _))

/-- Where the ends of a transaction count as at home: with a broker, wherever it is
executed. -/
def Transaction.homes (tx : Transaction) : Address → ℕ :=
  if tx.hasBroker then fun _ => sid else place

variable {place : Address → ℕ} {sid : ℕ} {bal : Address → ℤ} {tx : Transaction}

theorem Transaction.homes_of_hasBroker (h : tx.hasBroker = false) :
    tx.homes place sid = place := by
  rw [homes, h]
  exact if_neg Bool.false_ne_true

theorem Transaction.homes_eq_iff {a : Address} :
    tx.homes place sid a = sid ↔ place a = sid ∨ tx.hasBroker = true := by
  rw [homes]
  split
  · rename_i hb
    exact iff_of_true rfl (.inr hb)
  · rename_i hb
    exact ⟨.inl, fun h => h.resolve_right hb⟩

/-! ## Balances stay non-negative -/

theorem credit_nonneg (h : ∀ a, 0 ≤ bal a) (hv : 0 ≤ tx.amount) (a : Address) :
    0 ≤ credit place sid bal tx a := by
  rw [credit]
  split
  · rw [Function.update_apply]
    split
    · exact add_nonneg (h _) hv
    · exact h a
  · exact h a

theorem settle_nonneg (h : ∀ a, 0 ≤ bal a) (hv : 0 ≤ tx.amount) (a : Address) :
    0 ≤ settle place sid bal tx a := by
  rw [settle]
  split
  · split
    · exact h a
    · rename_i hle
      refine credit_nonneg (fun b => ?_) hv a
      rw [Function.update_apply]
      split
      · exact sub_nonneg.mpr (not_lt.mp hle)
      · exact h b
  · exact credit_nonneg h hv a

theorem foldl_settle_nonneg {txs : List Transaction} (h : ∀ a, 0 ≤ bal a)
    (hv : ∀ tx ∈ txs, 0 ≤ tx.amount) (a : Address) :
    0 ≤ txs.foldl (settle place sid) bal a := by
  induction txs generalizing bal with
  | nil => exact h a
  | cons tx txs ih =>
    exact ih (settle_nonneg h (hv tx List.mem_cons_self))
      fun t ht => hv t (List.mem_cons_of_mem _ ht)

/-! ## What is sent out without being paid -/

theorem overdraft_nonneg (hv : 0 ≤ tx.amount) : 0 ≤ overdraft place sid bal tx := by
  rw [overdraft]
  split
  · exact le_refl 0
  · exact hv

theorem minted_nonneg {txs : List Transaction} (hv : ∀ tx ∈ txs, 0 ≤ tx.amount) :
    0 ≤ minted place sid bal txs := by
  induction txs generalizing bal with
  | nil => exact le_refl 0
  | cons tx txs ih =>
    exact add_nonneg (overdraft_nonneg (hv tx List.mem_cons_self))
      (ih fun t ht => hv t (List.mem_cons_of_mem _ ht))

/-- Something is sent out without being paid only where there is something to pay. -/
theorem overdraft_eq_zero_iff (h : ∀ a, 0 ≤ bal a) :
    overdraft place sid bal tx = 0 ↔ tx.Funded place sid bal := by
  rw [overdraft]
  split
  · rename_i hf
    exact iff_of_true rfl hf
  · rename_i hf
    refine iff_of_false (fun hz => hf fun _ => ?_) hf
    rw [hz]
    exact h _

/-- **Nothing is sent out without being paid exactly where all is paid.** -/
theorem minted_eq_zero_iff {txs : List Transaction} (h : ∀ a, 0 ≤ bal a)
    (hv : ∀ tx ∈ txs, 0 ≤ tx.amount) :
    minted place sid bal txs = 0 ↔ AllFunded place sid bal txs := by
  induction txs generalizing bal with
  | nil => exact iff_of_true rfl trivial
  | cons tx txs ih =>
    have hrest : ∀ t ∈ txs, 0 ≤ t.amount := fun t ht => hv t (List.mem_cons_of_mem _ ht)
    have htx := hv tx List.mem_cons_self
    rw [minted, AllFunded, ← overdraft_eq_zero_iff h, ← ih (settle_nonneg h htx) hrest]
    -- neither part is negative, so the sum is zero only if both are
    exact add_eq_zero_iff_of_nonneg (overdraft_nonneg htx) (minted_nonneg hrest)

/-! ## Execution settles -/

namespace BlockChain

variable {H : Type} {cc : ChainConfig H} {bc : BlockChain H} {i : ℕ} {st st' : Accounts}
  {cnt cnt' : ℕ}

theorem readAccount_balance (st : Accounts) (i : ℕ) (a : Address) :
    (readAccount st i a).balance = balanceOf st a := by
  rw [readAccount, balanceOf]
  rcases st.lookup a with _ | s
  · rfl
  · rfl

theorem balanceOf_insert (st : Accounts) (a : Address) (s : AccountState) :
    balanceOf (st.insert a s) = Function.update (balanceOf st) a s.balance := by
  funext b
  rw [Function.update_apply]
  split
  · rename_i h
    rw [h, balanceOf_insert_self]
  · rename_i h
    exact balanceOf_insert_ne st s h

/-- What is counted is what was modified. -/
def Counted (st : Accounts) (cnt : ℕ) (st' : Accounts) (cnt' : ℕ) : Prop :=
  cnt ≤ cnt' ∧ (cnt' = cnt → st' = st)

theorem Counted.refl (st : Accounts) (cnt : ℕ) : Counted st cnt st cnt :=
  ⟨le_refl cnt, fun _ => rfl⟩

theorem Counted.trans {st'' : Accounts} {cnt'' : ℕ} (h : Counted st cnt st' cnt')
    (h' : Counted st' cnt' st'' cnt'') : Counted st cnt st'' cnt'' := by
  refine ⟨h.1.trans h'.1, fun heq => ?_⟩
  have hcnt' : cnt' = cnt := le_antisymm (heq ▸ h'.1) h.1
  rw [h'.2 (heq.trans hcnt'.symm), h.2 hcnt']

theorem executeRecipient_settles
    (h : executeRecipient cc bc i tx st cnt = some (st', cnt')) :
    balanceOf st' =
        credit (tx.homes (bc.getPartitionMap cc) cc.shardID) cc.shardID (balanceOf st) tx ∧
      Counted st cnt st' cnt' := by
  rw [executeRecipient] at h
  rw [credit]
  split at h
  · rename_i hhome
    obtain ⟨v, hv, heq⟩ := Option.map_eq_some_iff.mp h
    obtain ⟨rfl, rfl⟩ := Prod.mk.inj heq
    rw [if_pos (Transaction.homes_eq_iff.mpr hhome), balanceOf_insert, AccountState.deposit,
      readAccount_balance, Transaction.amount, hv, Option.getD_some]
    exact ⟨rfl, Nat.le_succ cnt, fun hc => absurd hc (Nat.succ_ne_self cnt)⟩
  · rename_i hhome
    obtain ⟨rfl, rfl⟩ := Prod.mk.inj (Option.some.inj h)
    rw [if_neg (fun hp => hhome (Transaction.homes_eq_iff.mp hp))]
    exact ⟨rfl, .refl _ _⟩

/-- The loop body of `GetUpdateStatusTrie` settles its transaction. -/
theorem executeTx_settles
    (h : executeTx cc bc i tx st cnt = some (st', cnt')) :
    balanceOf st' =
        settle (tx.homes (bc.getPartitionMap cc) cc.shardID) cc.shardID (balanceOf st) tx ∧
      Counted st cnt st' cnt' := by
  rw [executeTx] at h
  rw [settle]
  have hcond : (tx.relayed = false ∧ (bc.isHome cc tx.sender ∨ tx.hasBroker = true)) ↔
      (tx.relayed = false ∧ tx.homes (bc.getPartitionMap cc) cc.shardID tx.sender = cc.shardID) :=
    and_congr_right fun _ => Transaction.homes_eq_iff.symm
  split at h
  · rename_i hpays
    rw [if_pos (hcond.mp hpays)]
    obtain ⟨v, hv, h⟩ := Option.bind_eq_some_iff.mp h
    have hamount : tx.amount = v := by rw [Transaction.amount, hv, Option.getD_some]
    rw [readAccount_balance] at h
    rw [hamount]
    split at h
    · rename_i hlt
      obtain ⟨rfl, rfl⟩ := Prod.mk.inj (Option.some.inj h)
      rw [if_pos hlt]
      exact ⟨rfl, .refl _ _⟩
    · rename_i hle
      rw [if_neg hle]
      obtain ⟨hbal, hcnt⟩ := executeRecipient_settles h
      rw [AccountState.deduct, readAccount_balance, if_neg hle, balanceOf_insert] at hbal
      refine ⟨hbal, Counted.trans ⟨Nat.le_succ cnt, fun hc => ?_⟩ hcnt⟩
      exact absurd hc (Nat.succ_ne_self cnt)
  · rename_i hpays
    rw [if_neg (fun hp => hpays (hcond.mpr hp))]
    exact executeRecipient_settles h

theorem executeTxs_settles {txs : List Transaction}
    (h : executeTxs cc bc i (txs.map some) st cnt = some (st', cnt')) :
    balanceOf st' = txs.foldl (fun bal tx =>
        settle (tx.homes (bc.getPartitionMap cc) cc.shardID) cc.shardID bal tx) (balanceOf st) ∧
      Counted st cnt st' cnt' := by
  induction txs generalizing i st cnt with
  | nil =>
    obtain ⟨rfl, rfl⟩ := Prod.mk.inj (Option.some.inj h)
    exact ⟨rfl, .refl _ _⟩
  | cons tx txs ih =>
    rw [List.map_cons, executeTxs] at h
    obtain ⟨⟨st₁, cnt₁⟩, h₁, h⟩ := Option.bind_eq_some_iff.mp h
    obtain ⟨hbal₁, hcnt₁⟩ := executeTx_settles h₁
    obtain ⟨hbal, hcnt⟩ := ih h
    rw [List.foldl_cons, ← hbal₁]
    exact ⟨hbal, hcnt₁.trans hcnt⟩

/-- **Execution settles the transactions in order**, whatever it adds and counts. -/
theorem getUpdateStatusTrie_settles {txs : List Transaction} {root : Accounts}
    (h : getUpdateStatusTrie cc bc (txs.map some) = some root) :
    balanceOf root = txs.foldl (fun bal tx =>
        settle (tx.homes (bc.getPartitionMap cc) cc.shardID) cc.shardID bal tx)
      (balanceOf bc.currentBlock.header.stateRoot) := by
  rw [getUpdateStatusTrie] at h
  split at h
  · rename_i hempty
    obtain rfl := Option.some.inj h
    rw [List.map_eq_nil_iff.mp (List.isEmpty_iff.mp hempty), List.foldl_nil]
  · obtain ⟨⟨st', cnt'⟩, hrun, rfl⟩ := Option.map_eq_some_iff.mp h
    obtain ⟨hbal, hcnt⟩ := executeTxs_settles hrun
    split
    · rename_i hz
      rw [← hbal, hcnt.2 hz]
    · exact hbal

/-- Without brokers, accounts are settled at their homes. -/
theorem getUpdateStatusTrie_balanceOf {txs : List Transaction} {root : Accounts}
    (hb : ∀ tx ∈ txs, tx.hasBroker = false)
    (h : getUpdateStatusTrie cc bc (txs.map some) = some root) :
    balanceOf root = txs.foldl (settle (bc.getPartitionMap cc) cc.shardID)
      (balanceOf bc.currentBlock.header.stateRoot) := by
  rw [getUpdateStatusTrie_settles h]
  refine List.foldl_ext _ _ _ fun bal tx htx => ?_
  rw [Transaction.homes_of_hasBroker (hb tx htx)]

end BlockChain

/-! ## What the accounts of a shard hold together -/

section

variable (addresses : Finset Address)

/-- What some accounts at home in a shard hold together. -/
def held (place : Address → ℕ) (sid : ℕ) (bal : Address → ℤ) : ℤ :=
  ∑ a ∈ addresses with place a = sid, bal a

variable {addresses}

theorem held_update (bal : Address → ℤ) {a : Address} (ha : a ∈ addresses) (hp : place a = sid) (v : ℤ) :
    held addresses place sid (Function.update bal a (bal a + v)) =
      held addresses place sid bal + v := by
  have hmem : a ∈ addresses.filter (place · = sid) := Finset.mem_filter.mpr ⟨ha, hp⟩
  rw [held, held, Finset.sum_update_of_mem hmem, ← Finset.add_sum_erase _ _ hmem,
    Finset.sdiff_singleton_eq_erase]
  ring

/-- What the accounts of one shard hold is part of what all accounts hold at home. -/
theorem sum_home_update (addresses : Finset Address) (place : Address → ℕ) (sid : ℕ)
    (f : ℕ → Address → ℤ) (bal : Address → ℤ) :
    ∑ a ∈ addresses, Function.update f sid bal (place a) a + held addresses place sid (f sid) =
      ∑ a ∈ addresses, f (place a) a + held addresses place sid bal := by
  rw [held, held, Finset.sum_filter, Finset.sum_filter, ← Finset.sum_add_distrib,
    ← Finset.sum_add_distrib]
  refine Finset.sum_congr rfl fun a _ => ?_
  rw [Function.update_apply]
  split
  · rename_i hp
    rw [hp]
    exact add_comm _ _
  · rfl

theorem held_credit (ha : tx.recipient ∈ addresses) :
    held addresses place sid (credit place sid bal tx) + outflow place sid tx =
      held addresses place sid bal + tx.amount := by
  rw [credit, outflow]
  split
  · rename_i hp
    rw [held_update bal ha hp, if_neg (not_not.mpr hp), add_zero]
  · rfl

/-- What a shard gains by one transaction. -/
theorem held_settle (bal : Address → ℤ) (hs : tx.sender ∈ addresses) (hr : tx.recipient ∈ addresses)
    (hp : tx.Placed place sid) :
    held addresses place sid (settle place sid bal tx) + outflow place sid tx =
      held addresses place sid bal + inflow tx + overdraft place sid bal tx := by
  rw [settle, inflow, overdraft]
  cases hrel : tx.relayed with
  | true =>
    have hhome := hp.2 hrel
    have hf : tx.Funded place sid bal := fun hne => absurd hhome hne
    rw [if_neg (by simp), if_pos rfl, if_pos hf, held_credit hr, add_zero]
  | false =>
    have hhome := hp.1 hrel
    rw [if_pos ⟨rfl, hhome⟩, if_neg Bool.false_ne_true, add_zero]
    split
    · -- it is not executed
      rename_i hlt
      rw [outflow]
      split
      · rename_i hne
        rw [if_neg (fun hf => absurd (hf hne) (not_le.mpr hlt))]
      · rename_i heq
        have hf : tx.Funded place sid bal := fun hne => absurd hne heq
        rw [if_pos hf]
    · rename_i hle
      have hf : tx.Funded place sid bal := fun _ => not_lt.mp hle
      have hpaid := held_update bal hs hhome (-tx.amount)
      rw [← sub_eq_add_neg] at hpaid
      rw [if_pos hf, held_credit hr, hpaid]
      ring

/-- **What a shard gains by a block**: what comes in, less what goes out, and what goes
out without being paid. -/
theorem held_foldl_settle (bal : Address → ℤ) {txs : List Transaction}
    (h : ∀ tx ∈ txs, tx.sender ∈ addresses ∧ tx.recipient ∈ addresses ∧ tx.Placed place sid) :
    held addresses place sid (txs.foldl (settle place sid) bal) +
        (txs.map (outflow place sid)).sum =
      held addresses place sid bal + (txs.map inflow).sum + minted place sid bal txs := by
  induction txs generalizing bal with
  | nil => simp [minted]
  | cons tx txs ih =>
    obtain ⟨hs, hr, hp⟩ := h tx List.mem_cons_self
    have hone := held_settle bal hs hr hp
    have hrest := ih (settle place sid bal tx)
      fun t ht => h t (List.mem_cons_of_mem _ ht)
    rw [List.foldl_cons, List.map_cons, List.map_cons, List.sum_cons, List.sum_cons, minted]
    linarith only [hone, hrest]

end

end BlockEmulator
