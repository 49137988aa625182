import BlockEmulator.RelayRest

/-!
# Relay shards keep one ledger

Seen from outside there is one account for each address, and each transaction moves its
amount from one account to another. The shards do it in two phases, in any order. As long
as no account spends more than it starts with, whatever the order:

* `foldl_settle_paid` — a block at a shard moves all its amounts;
* `ValueLedger.step` — what is not moved yet is what is pending;
* `one_ledger` — **at rest, every account has what it started with, what it was paid and
  not what it paid**, so that the order of all steps does not matter.
-/

namespace BlockEmulator

open Accounting StepSystem

/-! ## One block -/

/-- What a transaction that waits takes from an account. -/
def spends (a : Address) (tx : Transaction) : ℤ :=
  if tx.relayed = false ∧ tx.sender = a then tx.amount else 0

/-- What a transaction brings to an account. -/
def gains (a : Address) (tx : Transaction) : ℤ := if tx.recipient = a then tx.amount else 0

/-- What a transaction that waits will change of an account. -/
def net (a : Address) (tx : Transaction) : ℤ := gains a tx - spends a tx

section

variable {place : Address → ℕ} {sid : ℕ} {a : Address} {tx : Transaction}

theorem spends_nonneg (h : 0 ≤ tx.amount) : 0 ≤ spends a tx := by
  rw [spends]
  split
  · exact h
  · exact le_refl 0

theorem gains_nonneg (h : 0 ≤ tx.amount) : 0 ≤ gains a tx := by
  rw [gains]
  split
  · exact h
  · exact le_refl 0

theorem sum_spends_nonneg {txs : List Transaction} (h : ∀ tx ∈ txs, 0 ≤ tx.amount) :
    0 ≤ (txs.map (spends a)).sum := by
  refine List.sum_nonneg fun v hv => ?_
  obtain ⟨tx, htx, rfl⟩ := List.mem_map.mp hv
  exact spends_nonneg (h tx htx)

theorem spends_second (a : Address) (tx : Transaction) : spends a tx.second = 0 :=
  if_neg fun h => by cases h.1

/-- Second phases take nothing. -/
theorem sum_dueElsewhere_spends (place : Address → ℕ) (sid : ℕ) (a : Address)
    (txs : List Transaction) : (txs.map (dueElsewhere place sid (spends a))).sum = 0 := by
  refine List.sum_eq_zero fun v hv => ?_
  obtain ⟨tx, -, rfl⟩ := List.mem_map.mp hv
  rw [dueElsewhere, spends_second, ite_self]

theorem sum_gains_nonneg {txs : List Transaction} (h : ∀ tx ∈ txs, 0 ≤ tx.amount) :
    0 ≤ (txs.map (gains a)).sum := by
  refine List.sum_nonneg fun v hv => ?_
  obtain ⟨tx, htx, rfl⟩ := List.mem_map.mp hv
  exact gains_nonneg (h tx htx)

theorem sum_net (a : Address) (txs : List Transaction) :
    (txs.map (net a)).sum = (txs.map (gains a)).sum - (txs.map (spends a)).sum := by
  induction txs with
  | nil => rfl
  | cons tx txs ih =>
    rw [List.map_cons, List.map_cons, List.map_cons, List.sum_cons, List.sum_cons, List.sum_cons,
      ih, net]
    ring

/-- What a block leaves to be done is at other homes. -/
theorem dueElsewhere_net (hp : tx.Placed place sid) :
    dueElsewhere place sid (net a) tx = if place a = sid then 0 else net a tx := by
  rw [dueElsewhere, net, net, spends_second, sub_zero]
  by_cases ha : place a = sid
  · rw [if_pos ha]
    split
    · rename_i hne
      exact if_neg fun (h : tx.recipient = a) => hne (h ▸ ha)
    · rfl
  · have hspends : spends a tx = 0 := if_neg fun h : tx.relayed = false ∧ tx.sender = a => ha (h.2 ▸ hp.1 h.1)
    rw [if_neg ha, hspends, sub_zero]
    split
    · rfl
    · rename_i heq
      rw [gains, if_neg fun h : tx.recipient = a => ha (h ▸ not_not.mp heq)]

/-- A transaction that can be paid moves its amount, as far as accounts are at home. -/
theorem settle_paid {bal : Address → ℤ} (hp : tx.Placed place sid)
    (hpaid : tx.relayed = false → tx.amount ≤ bal tx.sender) (ha : place a = sid) :
    settle place sid bal tx a = bal a + net a tx := by
  have hcredit : ∀ b : Address → ℤ, credit place sid b tx a = b a + gains a tx := by
    intro b
    rw [credit, gains]
    by_cases hr : tx.recipient = a
    · rw [if_pos (hr ▸ ha), if_pos hr, hr, Function.update_self]
    · rw [if_neg hr, add_zero]
      split
      · exact Function.update_of_ne (Ne.symm hr) _ _
      · rfl
  rw [settle, net, spends]
  cases hrel : tx.relayed with
  | true =>
    rw [if_neg (by simp), hcredit, if_neg (by simp), sub_zero]
  | false =>
    rw [if_pos ⟨rfl, hp.1 hrel⟩, if_neg (not_lt.mpr (hpaid hrel)), hcredit]
    by_cases hs : tx.sender = a
    · rw [if_pos ⟨rfl, hs⟩, hs, Function.update_self]
      ring
    · rw [if_neg (fun h => hs h.2), sub_zero, Function.update_of_ne (Ne.symm hs)]

/-- Whether the accounts at home in a shard cover all that some transactions take. -/
def Afforded (place : Address → ℕ) (sid : ℕ) (bal : Address → ℤ) (txs : List Transaction) : Prop :=
  ∀ a, place a = sid → (txs.map (spends a)).sum ≤ bal a

section

variable {bal : Address → ℤ} {txs : List Transaction}

/-- The first of some covered transactions can be paid. -/
theorem Afforded.head (h : Afforded place sid bal (tx :: txs)) (hp : tx.Placed place sid)
    (hv : ∀ t ∈ txs, 0 ≤ t.amount) (hrel : tx.relayed = false) : tx.amount ≤ bal tx.sender := by
  have hle := h tx.sender (hp.1 hrel)
  rw [List.map_cons, List.sum_cons, spends, if_pos ⟨hrel, rfl⟩] at hle
  exact (le_add_of_nonneg_right (sum_spends_nonneg hv)).trans hle

/-- The others are covered when it is settled. -/
theorem Afforded.tail (h : Afforded place sid bal (tx :: txs)) (hp : tx.Placed place sid)
    (hv : ∀ t ∈ tx :: txs, 0 ≤ t.amount) : Afforded place sid (settle place sid bal tx) txs := by
  intro a ha
  have hrest : ∀ t ∈ txs, 0 ≤ t.amount := fun t ht => hv t (List.mem_cons_of_mem _ ht)
  have hle := h a ha
  have hgain := gains_nonneg (a := a) (hv tx List.mem_cons_self)
  rw [List.map_cons, List.sum_cons] at hle
  rw [settle_paid hp (h.head hp hrest) ha, net]
  linarith only [hle, hgain]

/-- **A block that is covered moves all its amounts**, as far as accounts are at home. -/
theorem foldl_settle_paid (hp : ∀ tx ∈ txs, tx.Placed place sid) (hv : ∀ tx ∈ txs, 0 ≤ tx.amount)
    (hcover : Afforded place sid bal txs) (ha : place a = sid) :
    txs.foldl (settle place sid) bal a = bal a + (txs.map (net a)).sum := by
  induction txs generalizing bal with
  | nil => exact (add_zero _).symm
  | cons tx txs ih =>
    have hrest : ∀ t ∈ txs, 0 ≤ t.amount := fun t ht => hv t (List.mem_cons_of_mem _ ht)
    have htx := hp tx List.mem_cons_self
    rw [List.foldl_cons, ih (fun t ht => hp t (List.mem_cons_of_mem _ ht)) hrest
      (hcover.tail htx hv), settle_paid htx (hcover.head htx hrest) ha, List.map_cons,
      List.sum_cons, add_assoc]

/-- Such a block pays for what it sends out. -/
theorem Afforded.allFunded (hcover : Afforded place sid bal txs)
    (hp : ∀ tx ∈ txs, tx.Placed place sid) (hv : ∀ tx ∈ txs, 0 ≤ tx.amount) :
    AllFunded place sid bal txs := by
  induction txs generalizing bal with
  | nil => trivial
  | cons tx txs ih =>
    have hrest : ∀ t ∈ txs, 0 ≤ t.amount := fun t ht => hv t (List.mem_cons_of_mem _ ht)
    have htx := hp tx List.mem_cons_self
    refine ⟨fun hne => hcover.head htx hrest ?_,
      ih (hcover.tail htx hv) (fun t ht => hp t (List.mem_cons_of_mem _ ht)) hrest⟩
    -- a second phase is not sent out
    cases hrel : tx.relayed with
    | true => exact absurd (htx.2 hrel) hne
    | false => rfl

end

end

/-! ## All blocks -/

variable {H : Type} [DecidableEq H]

/-- What accounts have after some transactions were injected. -/
structure ValueLedger (sys : RelaySystem H) (s : NetState H) (txs : List Transaction) : Prop where
  /-- each transaction is in a stage -/
  settling : Settling sys s txs
  /-- what is not moved yet is pending -/
  balance : ∀ a, s.homeBalance sys a + s.pending sys (net a) = initBalance + (txs.map (net a)).sum
  /-- accounts have what they have not spent -/
  covered : ∀ a, initBalance + s.pending sys (spends a) ≤
    s.homeBalance sys a + (txs.map (spends a)).sum

variable {sys : RelaySystem H} {s t : NetState H} {txs : List Transaction} {a : NetAction}

omit [DecidableEq H] in
/-- Balances do not change when transactions arrive. -/
theorem homeBalance_received (s : NetState H) (k : ℕ) (new : List Transaction)
    (fl : List (ℕ × Relay)) (u : Finset Bytes) (b : Address) :
    (⟨Function.update s.chains k ((s.chains k).received new), fl, u⟩ : NetState H).homeBalance
      sys b = s.homeBalance sys b := by
  rw [NetState.homeBalance, NetState.homeBalance]
  dsimp only
  rcases eq_or_ne (sys.place b) k with hp | hp
  · rw [hp, Function.update_self, BlockChain.received_currentBlock]
  · rw [Function.update_of_ne hp]

omit [DecidableEq H] in
/-- What is pooled in one shard takes no more than all that is pending. -/
theorem NetSound.sum_spends_le (hs : NetSound sys s) {k : ℕ} (hk : k < sys.shardNums)
    (b : Address) : ((s.chains k).pooled.map (spends b)).sum ≤ s.pending sys (spends b) := by
  have hothers : 0 ≤ others sys.shardNums (fun _ bc => (bc.pooled.map (spends b)).sum) s.chains k :=
    Finset.sum_nonneg fun i hi => sum_spends_nonneg fun tx htx =>
      (hs.pooled i (Finset.mem_range.mp (Finset.mem_erase.mp hi).2) tx htx).1.amount_nonneg
  have hsent : 0 ≤ (s.sent.map (spends b)).sum := sum_spends_nonneg fun tx htx => by
    obtain ⟨e, he, htx⟩ := List.mem_flatMap.mp htx
    exact (hs.sent e he tx htx).1.amount_nonneg
  rw [NetState.pending, total_eq hk]
  linarith only [hothers, hsent]

omit [DecidableEq H] in
theorem ValueLedger.start : ValueLedger sys (NetState.start sys) [] := by
  have hzero : ∀ g : Transaction → ℤ, (NetState.start sys).pending sys g = 0 := fun g => by
    simp [NetState.pending, NetState.start, NetState.sent, total, BlockChain.pooled,
      genesisChain, TxPool.new]
  have hinit : ∀ a, (NetState.start sys).homeBalance sys a = initBalance := fun a => rfl
  refine ⟨.start, fun a => ?_, fun a => ?_⟩
  · rw [hzero, hinit]
    rfl
  · rw [hzero, hinit]
    exact le_refl _

namespace ValueLedger

omit [DecidableEq H] in
/-- What the accounts at home have covers the block. -/
theorem covers (h : ValueLedger sys s txs) (hafford : ∀ b, (txs.map (spends b)).sum ≤ initBalance)
    {sid : ℕ} {packed rest : List Transaction} (hk : sid < sys.shardNums)
    (htxs : (s.chains sid).pooled = packed ++ rest) :
    Afforded sys.place sid (balanceOf (s.chains sid).currentBlock.header.stateRoot) packed := by
  intro b hb
  have hle := h.settling.sound.sum_spends_le hk b
  have hcov := h.covered b
  have hrest : 0 ≤ (rest.map (spends b)).sum := sum_spends_nonneg fun tx htx =>
    (h.settling.sound.pooled sid hk tx (htxs ▸ List.mem_append_right _ htx)).1.amount_nonneg
  rw [htxs, List.map_append, List.sum_append] at hle
  rw [NetState.homeBalance, hb] at hcov
  linarith only [hle, hcov, hrest, hafford b]

/-- Every block pays for what it sends out. -/
theorem funded (h : ValueLedger sys s txs) (hafford : ∀ b, (txs.map (spends b)).sum ≤ initBalance)
    (hstep : s.step sys a = some t) : a.Funded sys s := by
  cases a with
  | inject sid new => trivial
  | deliver k => trivial
  | commit sid miner seqID now =>
    have hs := h.settling.sound
    obtain ⟨hk, bc, packed, rest, -, htxs, -, -, -, hfilter, -⟩ := hs.step_commit hstep
    have hall : ∀ tx ∈ packed, tx.Regular sys ∧ tx.Placed sys.place sid :=
      fun tx htx => hs.pooled sid hk tx (htxs ▸ List.mem_append_left _ htx)
    rw [NetAction.Funded, hfilter]
    exact (h.covers hafford hk htxs).allFunded (fun tx htx => (hall tx htx).2)
      fun tx htx => (hall tx htx).1.amount_nonneg

/-- A block moves what it holds from what is pending to the accounts. -/
theorem commit (h : ValueLedger sys s txs) (hafford : ∀ b, (txs.map (spends b)).sum ≤ initBalance)
    {sid miner seqID : ℕ} {now : Time} (hstep : s.step sys (.commit sid miner seqID now) = some t) :
    ValueLedger sys t txs := by
  have hs := h.settling.sound
  obtain ⟨hk, bc, packed, rest, ht, htxs, hqueue, -, -, -, hroot⟩ := hs.step_commit hstep
  have hall : ∀ tx ∈ packed, tx.Regular sys ∧ tx.Placed sys.place sid :=
    fun tx htx => hs.pooled sid hk tx (htxs ▸ List.mem_append_left _ htx)
  have hexec := BlockChain.getUpdateStatusTrie_balanceOf (fun tx htx => (hall tx htx).1.hasBroker)
    hroot
  rw [sys.getPartitionMap_eq (hs.placed sid), sys.cc_shardID] at hexec
  have hhome : ∀ b, t.homeBalance sys b = s.homeBalance sys b +
      if sys.place b = sid then (packed.map (net b)).sum else 0 := by
    intro b
    rw [ht, NetState.homeBalance, NetState.homeBalance]
    dsimp only
    by_cases hb : sys.place b = sid
    · rw [hb, Function.update_self, if_pos rfl, hexec,
        foldl_settle_paid (fun tx htx => (hall tx htx).2)
          (fun tx htx => (hall tx htx).1.amount_nonneg) (h.covers hafford hk htxs) hb]
    · rw [Function.update_of_ne hb, if_neg hb, add_zero]
  have hspends : ∀ b, sys.place b ≠ sid → (packed.map (spends b)).sum = 0 := fun b hb => by
    refine List.sum_eq_zero fun v hv => ?_
    obtain ⟨tx, htx, rfl⟩ := List.mem_map.mp hv
    refine if_neg fun hsp => hb ?_
    obtain ⟨hrel, rfl⟩ := hsp
    exact (hall tx htx).2.1 hrel
  refine ⟨h.settling.commit hstep, fun b => ?_, fun b => ?_⟩
  · have hpend := hs.pending_commit (net b) hk ht htxs hqueue
    have hdue : (packed.map (dueElsewhere sys.place sid (net b))).sum =
        if sys.place b = sid then 0 else (packed.map (net b)).sum := by
      rw [List.map_congr_left fun tx htx => dueElsewhere_net (hall tx htx).2]
      split
      · simp
      · rfl
    have hbal := h.balance b
    rw [hdue] at hpend
    rw [hhome]
    by_cases hb : sys.place b = sid
    · rw [if_pos hb] at hpend ⊢
      linarith only [hpend, hbal]
    · rw [if_neg hb] at hpend ⊢
      linarith only [hpend, hbal]
  · have hpend := hs.pending_commit (spends b) hk ht htxs hqueue
    rw [sum_dueElsewhere_spends, add_zero] at hpend
    have hcov := h.covered b
    have hgains := sum_gains_nonneg (a := b) fun tx htx => (hall tx htx).1.amount_nonneg
    have hnet := sum_net b packed
    rw [hhome]
    by_cases hb : sys.place b = sid
    · rw [if_pos hb]
      linarith only [hpend, hcov, hgains, hnet]
    · rw [if_neg hb]
      linarith only [hpend, hcov, hspends b hb]

/-- **What is not moved yet is what is pending**, after every step. -/
theorem step (h : ValueLedger sys s txs) (hafford : ∀ b, (txs.map (spends b)).sum ≤ initBalance)
    (hstep : s.step sys a = some t) : ValueLedger sys t (txs ++ a.injected) := by
  have hs := h.settling.sound
  have hsettling := h.settling.step hstep
  cases a with
  | inject sid new =>
    have hpend := fun g : Transaction → ℤ => hs.pending_inject g hstep
    obtain ⟨-, rfl⟩ := NetState.step_inject hstep
    refine ⟨hsettling, fun b => ?_, fun b => ?_⟩
    · have hbal := h.balance b
      rw [hpend, homeBalance_received, NetAction.injected, List.map_append, List.sum_append]
      linarith only [hbal]
    · have hcov := h.covered b
      rw [hpend, homeBalance_received, NetAction.injected, List.map_append, List.sum_append]
      linarith only [hcov]
  | deliver k =>
    have hpend := fun g : Transaction → ℤ => hs.pending_deliver g hstep
    obtain ⟨e, -, rfl⟩ := NetState.step_deliver hstep
    have hnil : txs ++ (NetAction.deliver k).injected = txs := List.append_nil txs
    rw [hnil] at hsettling ⊢
    refine ⟨hsettling, fun b => ?_, fun b => ?_⟩
    · rw [hpend, homeBalance_received]
      exact h.balance b
    · rw [hpend, homeBalance_received]
      exact h.covered b
  | commit sid miner seqID now => exact (List.append_nil txs).symm ▸ h.commit hafford hstep

/-- What a run does not overspend, its beginnings do not: all amounts are known at the
end. -/
theorem afford_prefix (h : ValueLedger sys s txs) {as : List NetAction}
    (hafford : ∀ b, ((txs ++ as.flatMap NetAction.injected).map (spends b)).sum ≤ initBalance)
    (hrun : runWith (NetState.step sys) (fun _ _ => True) s as = some t) (b : Address) :
    (txs.map (spends b)).sum ≤ initBalance := by
  have hle := hafford b
  rw [List.map_append, List.sum_append] at hle
  refine (le_add_of_nonneg_right (sum_spends_nonneg fun tx htx => ?_)).trans hle
  exact ((h.settling.run hrun).injected tx (List.mem_append_right _ htx)).1.amount_nonneg

/-- **What every step keeps over a ledger that is not overspent, a run keeps.** -/
theorem run_keeps {P : NetState H → List Transaction → Prop}
    (hP : ∀ s txs a t, ValueLedger sys s txs → (∀ b, (txs.map (spends b)).sum ≤ initBalance) →
      P s txs → s.step sys a = some t → P t (txs ++ a.injected))
    (h : ValueLedger sys s txs) (h₀ : P s txs) {as : List NetAction}
    (hafford : ∀ b, ((txs ++ as.flatMap NetAction.injected).map (spends b)).sum ≤ initBalance)
    (hrun : runWith (NetState.step sys) (fun _ _ => True) s as = some t) :
    ValueLedger sys t (txs ++ as.flatMap NetAction.injected) ∧
      P t (txs ++ as.flatMap NetAction.injected) := by
  induction as generalizing s txs with
  | nil =>
    obtain rfl := Option.some.inj hrun
    rw [List.flatMap_nil, List.append_nil]
    exact ⟨h, h₀⟩
  | cons a as ih =>
    have hprefix := h.afford_prefix hafford hrun
    rw [runWith, if_pos trivial] at hrun
    obtain ⟨u, hu, hrun⟩ := Option.bind_eq_some_iff.mp hrun
    rw [List.flatMap_cons, ← List.append_assoc] at hafford ⊢
    exact ih (h.step hprefix hu) (hP s txs a u h hprefix h₀ hu) hafford hrun

/-- All blocks of such a run pay for what they send out. -/
theorem run_funded (h : ValueLedger sys s txs) {as : List NetAction}
    (hafford : ∀ b, ((txs ++ as.flatMap NetAction.injected).map (spends b)).sum ≤ initBalance)
    (hrun : runWith (NetState.step sys) (fun _ _ => True) s as = some t) :
    AllSteps (NetState.step sys) (fun s a => a.Funded sys s) s as := by
  induction as generalizing s txs with
  | nil => trivial
  | cons a as ih =>
    have hprefix := h.afford_prefix hafford hrun
    rw [runWith, if_pos trivial] at hrun
    obtain ⟨u, hu, hrun⟩ := Option.bind_eq_some_iff.mp hrun
    rw [List.flatMap_cons, ← List.append_assoc] at hafford
    intro v hv
    obtain rfl : u = v := Option.some.inj (hu.symm.trans hv)
    exact ⟨h.funded hprefix hu, ih (h.step hprefix hu) hafford hrun⟩

end ValueLedger

omit [DecidableEq H] in
/-- At rest nothing is pending. -/
theorem NetState.AtRest.pending_eq (h : s.AtRest sys) (g : Transaction → ℤ) :
    s.pending sys g = 0 := by
  have hsent : s.sent = [] := by rw [NetState.sent, h.1]; rfl
  rw [NetState.pending, hsent, total]
  simp only [List.map_nil, List.sum_nil, add_zero]
  refine Finset.sum_eq_zero fun k hk => ?_
  rw [h.2 k (Finset.mem_range.mp hk)]
  rfl

/-- **Relay shards keep one ledger**: in every run whose transactions do not take more from
any account than it starts with, whatever the order of injections, blocks and messages,
no value is made or lost; each account has at its home what it started with and what its
transactions have changed, but for what is pending; so at rest it has what it was paid,
less what it paid. -/
theorem one_ledger (sys : RelaySystem H) (as : List NetAction) (s : NetState H)
    (hafford : ∀ b, ((as.flatMap NetAction.injected).map (spends b)).sum ≤ initBalance)
    (hrun : runWith (NetState.step sys) (fun _ _ => True) (NetState.start sys) as = some s) :
    AllStates (NetState.step sys) (fun s => s.value sys = (NetState.start sys).value sys)
        (NetState.start sys) as ∧
      (∀ b, s.homeBalance sys b + s.pending sys (net b) =
        initBalance + ((as.flatMap NetAction.injected).map (net b)).sum) ∧
      (s.AtRest sys → ∀ b, s.homeBalance sys b =
        initBalance + ((as.flatMap NetAction.injected).map (gains b)).sum -
          ((as.flatMap NetAction.injected).map (spends b)).sum) := by
  have hafford : ∀ b, (([] ++ as.flatMap NetAction.injected).map (spends b)).sum ≤ initBalance :=
    hafford
  have hsteps := ValueLedger.start.run_funded hafford hrun
  obtain ⟨hledger, -⟩ := ValueLedger.start.run_keeps (P := fun _ _ => True)
    (fun _ _ _ _ _ _ _ _ => trivial) trivial hafford hrun
  rw [List.nil_append] at hledger
  refine ⟨(value_conserved sys as).mpr hsteps, hledger.balance, fun hrest b => ?_⟩
  have hbal := hledger.balance b
  rw [hrest.pending_eq, add_zero, sum_net] at hbal
  linarith only [hbal]

/-- A payment from shard to shard after its whole run. -/
theorem one_ledger_cross :
    ∃ s, runWith (NetState.step twoShards) (fun _ _ => True) (NetState.start twoShards)
        (crossRun crossTransaction) = some s ∧ s.homeBalance twoShards "b" +
          s.pending twoShards (net "b") = initBalance + 5 := by
  obtain ⟨s, hs⟩ := Option.isSome_iff_exists.mp
    (show (runWith (NetState.step twoShards) (fun _ _ => True) (NetState.start twoShards)
      (crossRun crossTransaction)).isSome = true by decide +kernel)
  have hafford : ∀ b, (((crossRun crossTransaction).flatMap NetAction.injected).map
      (spends b)).sum ≤ initBalance := by
    intro b
    have hinjected : (crossRun crossTransaction).flatMap NetAction.injected =
      [crossTransaction] := rfl
    rw [hinjected, List.map_singleton, List.sum_singleton, spends]
    split <;> decide
  exact ⟨s, hs, (one_ledger twoShards _ s hafford hs).2.1 "b"⟩

end BlockEmulator
