import BlockEmulator.BrokerNet

/-!
# What broker shards hold together

An amount goes from one shard to another in two transactions: the sender pays the broker,
the broker pays the recipient. Neither is marked as a transaction with a broker, so that
the broker's account is only touched in the shard where it is at home; and the second is
made when the first is in a block, executed or not, each time the block is reported.

* `BrokerSound.moved_eq` — what the transactions made for a raw message do to any account
  of any shard: it depends on how many of them are paid.
* `BrokerSound.value_eq` — what all shards hold together changes by what the raw messages
  are off by.
* `broker_value_iff` — so value is conserved, and each raw message passed on or without
  any effect, exactly where the broker is apart, the sender pays, and the first
  transaction is named once, or nobody pays at all.
-/

namespace BlockEmulator

open Accounting StepSystem

variable {H : Type} [DecidableEq H]

/-! ## What is stored where -/

/-- Whether a shard has an account: users are at home in one shard, brokers are in all. -/
def BrokerSystem.Stored (sys : BrokerSystem H) (k : ℕ) (a : Address) : Prop :=
  a ∈ sys.brokerAddress ∨ sys.place a = k

instance (sys : BrokerSystem H) (k : ℕ) : DecidablePred (sys.Stored k) :=
  fun _ => inferInstanceAs (Decidable (_ ∨ _))

/-- What the accounts that are stored in a shard hold together. -/
def BrokerSystem.kept (sys : BrokerSystem H) (k : ℕ) (bal : Address → ℤ) : ℤ :=
  ∑ a ∈ sys.addresses with sys.Stored k a, bal a

/-- What a transaction changes when it is executed. -/
def Execution.change (place : Address → ℕ) (e : Execution) (a : Address) : ℤ :=
  settle (e.tx.homes place e.shard) e.shard e.before e.tx a - e.before a

namespace BrokerNet

variable (sys : BrokerSystem H)

/-- What users and brokers hold together, in all shards. -/
def value (s : BrokerNet H) : ℤ :=
  total sys.shardNum (fun k bc => sys.kept k (balanceOf bc.currentBlock.header.stateRoot)) s.chains

/-- Whether all transactions that were made are executed. -/
def Executed (s : BrokerNet H) : Prop :=
  (∀ e ∈ s.flight, ∀ tx ∈ e.2, tx.rawTxHash = []) ∧
    ∀ k < sys.shardNum, ∀ tx ∈ (s.chains k).pooled, tx.rawTxHash = []

instance (s : BrokerNet H) : Decidable (s.Executed sys) := inferInstanceAs (Decidable (_ ∧ _))

/-! ## What becomes of a raw message -/

/-- What the transactions made for a raw message have done to an account of a shard. -/
def moved (s : BrokerNet H) (m : BrokerRawMeg) (k : ℕ) (a : Address) : ℤ :=
  (s.ledger.map fun e =>
    if e.tx.rawTxHash = m.tx.txHash ∧ e.shard = k then e.change sys.place a else 0).sum

/-- Whether the amount was passed on: the sender is debited, the recipient credited, and
the broker pays out what it takes in. -/
structure Passed (s : BrokerNet H) (m : BrokerRawMeg) : Prop where
  /-- the sender is debited -/
  sender : s.moved sys m (sys.place m.tx.sender) m.tx.sender = -m.tx.amount
  /-- the recipient is credited -/
  recipient : s.moved sys m (sys.place m.tx.recipient) m.tx.recipient = m.tx.amount
  /-- the broker has what it had -/
  broker : ∑ k ∈ Finset.range sys.shardNum, s.moved sys m k m.broker = 0

/-- Whether the amount went through the accounts of the broker. -/
def ThroughBroker (s : BrokerNet H) (m : BrokerRawMeg) : Prop :=
  s.moved sys m (sys.place m.tx.sender) m.broker = m.tx.amount ∧
    s.moved sys m (sys.place m.tx.recipient) m.broker = -m.tx.amount

/-- Whether nothing has changed. -/
def NoEffect (s : BrokerNet H) (m : BrokerRawMeg) : Prop := ∀ k a, s.moved sys m k a = 0

/-! ## What it depends on -/

/-- The sender can pay when the first transaction is executed. -/
def SenderPays (s : BrokerNet H) (m : BrokerRawMeg) : Prop :=
  ∃ e ∈ s.ledger, m.First e.tx ∧ m.tx.amount ≤ e.before m.tx.sender

/-- When a second transaction is executed, the broker can pay, or it is not asked to. -/
def BrokerPays (s : BrokerNet H) (m : BrokerRawMeg) : Prop :=
  ∃ e ∈ s.ledger, m.Second e.tx ∧ (sys.place m.broker = e.shard → m.tx.amount ≤ e.before m.broker)

/-- The broker is at home in another shard than sender and recipient. -/
def Apart (m : BrokerRawMeg) : Prop :=
  sys.place m.broker ≠ sys.place m.tx.sender ∧ sys.place m.broker ≠ sys.place m.tx.recipient

/-- Where the code passes an amount on or leaves everything as it is. -/
def Safe (s : BrokerNet H) (m : BrokerRawMeg) : Prop :=
  m.tx.amount = 0 ∨ (Apart sys m ∧ s.SenderPays m ∧ s.named m = 1) ∨
    (¬ s.SenderPays m ∧ ¬ s.BrokerPays sys m)

instance (s : BrokerNet H) (m : BrokerRawMeg) : Decidable (s.SenderPays m) :=
  inferInstanceAs (Decidable (∃ _ ∈ _, _))

instance (s : BrokerNet H) (m : BrokerRawMeg) : Decidable (s.BrokerPays sys m) :=
  inferInstanceAs (Decidable (∃ _ ∈ _, _))

instance (m : BrokerRawMeg) : Decidable (Apart sys m) := inferInstanceAs (Decidable (_ ∧ _))

instance (s : BrokerNet H) (m : BrokerRawMeg) : Decidable (s.Safe sys m) :=
  inferInstanceAs (Decidable (_ ∨ _ ∨ _))

end BrokerNet

/-- The first transaction is executed, and the sender pays. -/
def BrokerRawMeg.Pays (m : BrokerRawMeg) (e : Execution) : Prop :=
  m.First e.tx ∧ m.tx.amount ≤ e.before m.tx.sender

/-- A second transaction is executed, and not refused. -/
def BrokerRawMeg.Credits (place : Address → ℕ) (m : BrokerRawMeg) (e : Execution) : Prop :=
  m.Second e.tx ∧ (place m.broker = e.shard → m.tx.amount ≤ e.before m.broker)

instance (m : BrokerRawMeg) : DecidablePred m.Pays := fun _ => inferInstanceAs (Decidable (_ ∧ _))

instance (place : Address → ℕ) (m : BrokerRawMeg) : DecidablePred (m.Credits place) :=
  fun _ => inferInstanceAs (Decidable (_ ∧ _))

variable {sys : BrokerSystem H} {s t : BrokerNet H} {a : BrokerNetAction} {m : BrokerRawMeg}
  {e : Execution}

/-! ## What one execution changes -/

theorem update_add_apply {f : Address → ℤ} {a : Address} {v : ℤ} (b : Address) :
    Function.update f a (f a + v) b = f b + if b = a then v else 0 := by
  rw [Function.update_apply]
  split
  · rename_i h
    rw [h]
  · rw [add_zero]

omit [DecidableEq H] in
theorem BrokerRawMeg.First.route (hv : m.Valid sys) {tx : Transaction} (h : m.First tx) :
    sys.route tx = sys.place m.tx.sender := by
  rw [BrokerSystem.route, h.sender, if_neg hv.sender]

omit [DecidableEq H] in
theorem BrokerRawMeg.Second.route (hv : m.Valid sys) {tx : Transaction} (h : m.Second tx) :
    sys.route tx = sys.place m.tx.recipient := by
  rw [BrokerSystem.route, h.sender, if_pos hv.broker_mem, h]
  rfl

omit [DecidableEq H] in
/-- The first transaction debits the sender who pays, and credits the broker where it is
at home. -/
theorem BrokerRawMeg.First.change (hv : m.Valid sys) (h : m.First e.tx)
    (he : sys.route e.tx = e.shard) (a : Address) :
    e.change sys.place a = if m.Pays e then
      (if a = m.tx.sender then -m.tx.amount else 0) +
        (if a = m.broker ∧ sys.place m.broker = sys.place m.tx.sender then m.tx.amount else 0)
      else 0 := by
  obtain ⟨sid, tx, bal⟩ := e
  dsimp only at h he ⊢
  rw [h.route hv] at he
  subst he
  have hne : m.broker ≠ m.tx.sender := fun heq => hv.sender (heq ▸ hv.broker_mem)
  have hamount : tx.amount = m.tx.amount := by
    rw [h]
    rfl
  have hhomes : tx.homes sys.place (sys.place m.tx.sender) = sys.place :=
    Transaction.homes_of_hasBroker (by rw [h]; rfl)
  have hrel : tx.relayed = false := by
    rw [h]
    rfl
  have hto : tx.recipient = m.broker := by
    rw [h]
    rfl
  rw [Execution.change]
  dsimp only
  rw [hhomes, settle, h.sender, if_pos ⟨hrel, rfl⟩, hamount]
  by_cases hpay : m.tx.amount ≤ bal m.tx.sender
  · rw [if_neg (not_lt.mpr hpay), if_pos ⟨h, hpay⟩, credit, hto, hamount,
      sub_eq_add_neg (bal m.tx.sender)]
    split
    · rename_i hhome
      rw [update_add_apply, update_add_apply]
      simp only [hhome, and_true]
      ring
    · rename_i hhome
      rw [update_add_apply]
      simp only [hhome, and_false, if_false]
      ring
  · rw [if_pos (not_le.mp hpay), if_neg fun hp => hpay hp.2, sub_self]

omit [DecidableEq H] in
/-- A second transaction that is not refused credits the recipient, and debits the broker
where it is at home. -/
theorem BrokerRawMeg.Second.change (hv : m.Valid sys) (h : m.Second e.tx)
    (he : sys.route e.tx = e.shard) (a : Address) :
    e.change sys.place a = if m.Credits sys.place e then
      (if a = m.tx.recipient then m.tx.amount else 0) +
        (if a = m.broker ∧ sys.place m.broker = sys.place m.tx.recipient then -m.tx.amount else 0)
      else 0 := by
  obtain ⟨sid, tx, bal⟩ := e
  dsimp only at h he ⊢
  rw [h.route hv] at he
  subst he
  have hamount : tx.amount = m.tx.amount := by
    rw [h]
    rfl
  have hhomes : tx.homes sys.place (sys.place m.tx.recipient) = sys.place :=
    Transaction.homes_of_hasBroker (by rw [h]; rfl)
  have hrel : tx.relayed = false := by
    rw [h]
    rfl
  have hto : tx.recipient = m.tx.recipient := by
    rw [h]
    rfl
  rw [Execution.change]
  dsimp only
  rw [hhomes, settle, h.sender, hamount]
  by_cases hhome : sys.place m.broker = sys.place m.tx.recipient
  · rw [if_pos ⟨hrel, hhome⟩]
    by_cases hpay : m.tx.amount ≤ bal m.broker
    · rw [if_neg (not_lt.mpr hpay), if_pos ⟨h, fun _ => hpay⟩, credit, hto, if_pos rfl, hamount,
        sub_eq_add_neg (bal m.broker), update_add_apply, update_add_apply]
      simp only [hhome, and_true]
      ring
    · rw [if_pos (not_le.mp hpay), if_neg fun hp => hpay (hp.2 hhome), sub_self]
  · rw [if_neg fun hp => hhome hp.2, if_pos ⟨h, fun hp => absurd hp hhome⟩, credit, hto, if_pos rfl,
      hamount, update_add_apply]
    simp only [hhome, and_false, if_false]
    ring

/-! ## What the accounts of a shard gain -/

namespace BrokerSystem

omit [DecidableEq H] in
theorem kept_add (k : ℕ) (f g : Address → ℤ) :
    sys.kept k (fun a => f a + g a) = sys.kept k f + sys.kept k g := Finset.sum_add_distrib

omit [DecidableEq H] in
/-- A gain of one account that is stored here. -/
theorem kept_single {k : ℕ} {x : Address} (hx : x ∈ sys.addresses) (hk : sys.Stored k x) (v : ℤ) :
    sys.kept k (fun a => if a = x then v else 0) = v := by
  rw [kept, Finset.sum_ite_eq', if_pos (Finset.mem_filter.mpr ⟨hx, hk⟩)]

omit [DecidableEq H] in
theorem kept_zero (k : ℕ) : sys.kept k (fun _ => 0) = 0 := Finset.sum_const_zero

end BrokerSystem

/-- What a first transaction that is paid does to an account of a shard. -/
def firstEffect (sys : BrokerSystem H) (m : BrokerRawMeg) (k : ℕ) (a : Address) : ℤ :=
  if sys.place m.tx.sender = k then
    (if a = m.tx.sender then -m.tx.amount else 0) +
      (if a = m.broker ∧ sys.place m.broker = sys.place m.tx.sender then m.tx.amount else 0)
  else 0

/-- What a second transaction that is not refused does to an account of a shard. -/
def secondEffect (sys : BrokerSystem H) (m : BrokerRawMeg) (k : ℕ) (a : Address) : ℤ :=
  if sys.place m.tx.recipient = k then
    (if a = m.tx.recipient then m.tx.amount else 0) +
      (if a = m.broker ∧ sys.place m.broker = sys.place m.tx.recipient then -m.tx.amount else 0)
  else 0

/-- What the broker takes in with a first transaction. -/
def takenIn (sys : BrokerSystem H) (m : BrokerRawMeg) : ℤ :=
  if sys.place m.broker = sys.place m.tx.sender then m.tx.amount else 0

/-- What the broker pays out with a second transaction. -/
def paidOut (sys : BrokerSystem H) (m : BrokerRawMeg) : ℤ :=
  if sys.place m.broker = sys.place m.tx.recipient then m.tx.amount else 0

omit [DecidableEq H] in
theorem kept_firstEffect (hv : m.Valid sys) :
    sys.kept (sys.place m.tx.sender) (firstEffect sys m (sys.place m.tx.sender)) =
      -m.tx.amount + takenIn sys m := by
  have hbroker := sys.kept_single (k := sys.place m.tx.sender)
    (sys.brokers _ hv.broker_mem) (.inl hv.broker_mem)
  have hsender := sys.kept_single hv.sender_mem (.inr rfl) (-m.tx.amount)
  have hsplit : firstEffect sys m (sys.place m.tx.sender) = fun a =>
      (if a = m.tx.sender then -m.tx.amount else 0) +
        (if a = m.broker then takenIn sys m else 0) := by
    funext a
    rw [firstEffect, if_pos rfl, takenIn]
    by_cases hhome : sys.place m.broker = sys.place m.tx.sender
    · simp [hhome]
    · simp [hhome]
  rw [hsplit, sys.kept_add, hsender, hbroker]

omit [DecidableEq H] in
theorem kept_secondEffect (hv : m.Valid sys) :
    sys.kept (sys.place m.tx.recipient) (secondEffect sys m (sys.place m.tx.recipient)) =
      m.tx.amount - paidOut sys m := by
  have hbroker := sys.kept_single (k := sys.place m.tx.recipient)
    (sys.brokers _ hv.broker_mem) (.inl hv.broker_mem)
  have hrecipient := sys.kept_single hv.recipient_mem (.inr rfl) m.tx.amount
  have hsplit : secondEffect sys m (sys.place m.tx.recipient) = fun a =>
      (if a = m.tx.recipient then m.tx.amount else 0) +
        (if a = m.broker then -paidOut sys m else 0) := by
    funext a
    rw [secondEffect, if_pos rfl, paidOut]
    by_cases hhome : sys.place m.broker = sys.place m.tx.recipient
    · simp [hhome]
    · simp [hhome]
  rw [hsplit, sys.kept_add, hrecipient, hbroker, sub_eq_add_neg]

omit [DecidableEq H] in
/-- A plain transaction leaves the accounts of its shard with what they had. -/
theorem Transaction.Plain.kept_change (h : e.tx.Plain sys) (he : sys.route e.tx = e.shard) :
    sys.kept e.shard (e.change sys.place) = 0 := by
  obtain ⟨sid, tx, bal⟩ := e
  dsimp only at h he ⊢
  subst he
  -- both ends are stored here, and count as at home
  have hends : (sys.Stored (sys.route tx) tx.sender ∧
        tx.homes sys.place (sys.route tx) tx.sender = sys.route tx) ∧
      sys.Stored (sys.route tx) tx.recipient ∧
        tx.homes sys.place (sys.route tx) tx.recipient = sys.route tx := by
    cases hb : tx.hasBroker with
    | true =>
      have hall : ∀ a, tx.homes sys.place (sys.route tx) a = sys.route tx :=
        fun a => Transaction.homes_eq_iff.mpr (.inr hb)
      by_cases hs : tx.sender ∈ sys.brokerAddress
      · refine ⟨⟨.inl hs, hall _⟩, .inr ?_, hall _⟩
        rw [BrokerSystem.route, if_pos hs]
      · refine ⟨⟨.inr ?_, hall _⟩, .inl ((h.hasBroker.mp hb).resolve_right hs), hall _⟩
        rw [BrokerSystem.route, if_neg hs]
    | false =>
      have hs : tx.sender ∉ sys.brokerAddress := by
        intro hs
        rw [h.hasBroker.mpr (.inr hs)] at hb
        cases hb
      have hroute : sys.route tx = sys.place tx.sender := by rw [BrokerSystem.route, if_neg hs]
      rw [Transaction.homes_of_hasBroker hb, hroute]
      exact ⟨⟨.inr rfl, rfl⟩, .inr (h.place hb), h.place hb⟩
  obtain ⟨⟨hs, hs'⟩, hr, hr'⟩ := hends
  by_cases hpay : tx.amount ≤ bal tx.sender
  · have hchange : (⟨sys.route tx, tx, bal⟩ : Execution).change sys.place = fun a =>
        (if a = tx.sender then -tx.amount else 0) + (if a = tx.recipient then tx.amount else 0) := by
      funext a
      rw [Execution.change]
      dsimp only
      rw [settle, if_pos ⟨h.relayed, hs'⟩, if_neg (not_lt.mpr hpay), credit, if_pos hr',
        sub_eq_add_neg (bal tx.sender), update_add_apply, update_add_apply]
      ring
    rw [hchange, sys.kept_add, sys.kept_single h.sender_mem hs,
      sys.kept_single h.recipient_mem hr]
    exact neg_add_cancel _
  · have hchange : (⟨sys.route tx, tx, bal⟩ : Execution).change sys.place = fun _ => 0 := by
      funext a
      rw [Execution.change]
      dsimp only
      rw [settle, if_pos ⟨h.relayed, hs'⟩, if_pos (not_le.mp hpay), sub_self]
    rw [hchange, sys.kept_zero]

/-! ## What becomes of raw messages -/

/-- A sum over executions that depends on how many pay and how many credit. -/
theorem sum_map_two {l : List Execution} {f : Execution → ℤ} {P Q : Execution → Prop}
    [DecidablePred P] [DecidablePred Q] {c d : ℤ}
    (h : ∀ e ∈ l, f e = (if P e then c else 0) + (if Q e then d else 0)) :
    (l.map f).sum = l.countP (fun e => P e) * c + l.countP (fun e => Q e) * d := by
  induction l with
  | nil => simp
  | cons e l ih =>
    rw [List.map_cons, List.sum_cons, h e List.mem_cons_self,
      ih fun e he => h e (List.mem_cons_of_mem _ he), List.countP_cons, List.countP_cons]
    by_cases hP : P e
    · by_cases hQ : Q e
      · simp only [hP, hQ, if_true, decide_true]
        push_cast
        ring
      · simp only [hP, hQ, if_true, if_false, decide_true, decide_false, Bool.false_eq_true]
        push_cast
        ring
    · by_cases hQ : Q e
      · simp only [hP, hQ, if_true, if_false, decide_true, decide_false, Bool.false_eq_true]
        push_cast
        ring
      · simp only [hP, hQ, if_false, decide_false, Bool.false_eq_true]
        push_cast
        ring

/-- How many first transactions of a raw message are paid. -/
def BrokerNet.paid (s : BrokerNet H) (m : BrokerRawMeg) : ℕ := s.ledger.countP fun e => m.Pays e

/-- How many second transactions of a raw message are not refused. -/
def BrokerNet.credited (sys : BrokerSystem H) (s : BrokerNet H) (m : BrokerRawMeg) : ℕ :=
  s.ledger.countP fun e => m.Credits sys.place e

/-- What a raw message is off by in what all hold together. -/
def BrokerNet.offBy (sys : BrokerSystem H) (s : BrokerNet H) (m : BrokerRawMeg) : ℤ :=
  s.paid m * (-m.tx.amount + takenIn sys m) + s.credited sys m * (m.tx.amount - paidOut sys m)

namespace BrokerSound

omit [DecidableEq H] in
/-- **What the transactions made for a raw message do**: it depends on how many are paid. -/
theorem moved_eq (hs : BrokerSound sys s) (hm : m ∈ s.raws) (k : ℕ) (a : Address) :
    s.moved sys m k a =
      s.paid m * firstEffect sys m k a + s.credited sys m * secondEffect sys m k a := by
  have hv := (hs.known.raw m hm).1
  refine sum_map_two fun e he => ?_
  have hroute := hs.inPlace.ledger e he
  rcases hs.known.kind e.tx (BrokerNet.mem_all_of_ledger he) with hplain | ⟨m', hm', hkind⟩
  · have hne : e.tx.rawTxHash ≠ m.tx.txHash := fun heq => hv.txHash (heq ▸ hplain.rawTxHash)
    rw [if_neg fun h => hne h.1, if_neg fun h : m.Pays e => hne h.1.rawTxHash,
      if_neg fun h : m.Credits sys.place e => hne h.1.rawTxHash, add_zero]
  · by_cases hsame : m' = m
    · subst hsame
      rcases hkind with hfirst | hsecond
      · have hno : ¬ m'.Credits sys.place e := fun h => hfirst.not_second hv hv h.1
        rw [if_neg hno, add_zero, hfirst.rawTxHash, hfirst.change hv hroute, firstEffect,
          ← hroute, hfirst.route hv]
        by_cases hk : sys.place m'.tx.sender = k
        · simp [hk]
        · simp [hk]
      · have hno : ¬ m'.Pays e := fun h => h.1.not_second hv hv hsecond
        rw [if_neg hno, zero_add, hsecond.rawTxHash, hsecond.change hv hroute, secondEffect,
          ← hroute, hsecond.route hv]
        by_cases hk : sys.place m'.tx.recipient = k
        · simp [hk]
        · simp [hk]
    · have hne : e.tx.rawTxHash ≠ m.tx.txHash := by
        intro heq
        refine hsame (hs.known.rawHash m' hm' m hm ?_)
        rcases hkind with h | h
        · exact h.rawTxHash.symm.trans heq
        · exact h.rawTxHash.symm.trans heq
      rw [if_neg fun h => hne h.1, if_neg fun h : m.Pays e => hne h.1.rawTxHash,
        if_neg fun h : m.Credits sys.place e => hne h.1.rawTxHash, add_zero]

omit [DecidableEq H] in
/-- What an execution changes in what all hold together. -/
theorem kept_change (hs : BrokerSound sys s) (he : e ∈ s.ledger) :
    sys.kept e.shard (e.change sys.place) = ∑ m ∈ s.raws,
      ((if m.Pays e then -m.tx.amount + takenIn sys m else 0) +
        (if m.Credits sys.place e then m.tx.amount - paidOut sys m else 0)) := by
  have hroute := hs.inPlace.ledger e he
  rcases hs.known.kind e.tx (BrokerNet.mem_all_of_ledger he) with hplain | ⟨m, hm, hkind⟩
  · rw [hplain.kept_change hroute, eq_comm]
    refine Finset.sum_eq_zero fun m hm => ?_
    have hne : e.tx.rawTxHash ≠ m.tx.txHash :=
      fun heq => (hs.known.raw m hm).1.txHash (heq ▸ hplain.rawTxHash)
    rw [if_neg fun h : m.Pays e => hne h.1.rawTxHash,
      if_neg fun h : m.Credits sys.place e => hne h.1.rawTxHash, add_zero]
  · have hv := (hs.known.raw m hm).1
    have hraw : e.tx.rawTxHash = m.tx.txHash := by
      rcases hkind with h | h
      · exact h.rawTxHash
      · exact h.rawTxHash
    -- no other raw message has a part in it
    rw [Finset.sum_eq_single m (fun m' hm' hne => ?_) fun h => absurd hm h]
    · rcases hkind with hfirst | hsecond
      · have hno : ¬ m.Credits sys.place e := fun h => hfirst.not_second hv hv h.1
        have hshard : e.shard = sys.place m.tx.sender := by rw [← hroute, hfirst.route hv]
        rw [if_neg hno, add_zero, ← kept_firstEffect hv, hshard]
        split
        · rename_i hpay
          refine congrArg _ (funext fun a => ?_)
          rw [hfirst.change hv hroute, if_pos hpay, firstEffect, if_pos rfl]
        · rename_i hpay
          rw [← sys.kept_zero (sys.place m.tx.sender)]
          refine congrArg _ (funext fun a => ?_)
          rw [hfirst.change hv hroute, if_neg hpay]
      · have hno : ¬ m.Pays e := fun h => h.1.not_second hv hv hsecond
        have hshard : e.shard = sys.place m.tx.recipient := by rw [← hroute, hsecond.route hv]
        rw [if_neg hno, zero_add, ← kept_secondEffect hv, hshard]
        split
        · rename_i hpay
          refine congrArg _ (funext fun a => ?_)
          rw [hsecond.change hv hroute, if_pos hpay, secondEffect, if_pos rfl]
        · rename_i hpay
          rw [← sys.kept_zero (sys.place m.tx.recipient)]
          refine congrArg _ (funext fun a => ?_)
          rw [hsecond.change hv hroute, if_neg hpay]
    · have hne' : e.tx.rawTxHash ≠ m'.tx.txHash := fun heq =>
        hne (hs.known.rawHash m' hm' m hm (heq.symm.trans hraw))
      rw [if_neg fun h : m'.Pays e => hne' h.1.rawTxHash,
        if_neg fun h : m'.Credits sys.place e => hne' h.1.rawTxHash, add_zero]

omit [DecidableEq H] in
theorem sum_kept_change (hs : BrokerSound sys s) :
    (s.ledger.map fun e => sys.kept e.shard (e.change sys.place)).sum =
      ∑ m ∈ s.raws, s.offBy sys m := by
  have hsum : ∀ (l : List Execution) (g : BrokerRawMeg → Execution → ℤ),
      (l.map fun e => ∑ m ∈ s.raws, g m e).sum = ∑ m ∈ s.raws, (l.map (g m)).sum := by
    intro l g
    induction l with
    | nil => simp
    | cons e l ih => simp only [List.map_cons, List.sum_cons, ih, Finset.sum_add_distrib]
  rw [List.map_congr_left fun e he => hs.kept_change he, hsum]
  exact Finset.sum_congr rfl fun m _ => sum_map_two fun e _ => rfl

end BrokerSound

/-! ## What all shards hold together -/

omit [DecidableEq H] in
/-- What a block changes in what the accounts of its shard hold. -/
theorem kept_foldl (sid : ℕ) (bal : Address → ℤ) (txs : List Transaction) :
    sys.kept sid (txs.foldl (fun bal tx => settle (tx.homes sys.place sid) sid bal tx) bal) =
      sys.kept sid bal + ((executions sys.place sid bal txs).map fun e =>
        sys.kept e.shard (e.change sys.place)).sum := by
  induction txs generalizing bal with
  | nil => simp [executions]
  | cons tx txs ih =>
    have hone : sys.kept sid (settle (tx.homes sys.place sid) sid bal tx) =
        sys.kept sid bal +
          sys.kept sid ((⟨sid, tx, bal⟩ : Execution).change sys.place) := by
      rw [← sys.kept_add]
      refine congrArg _ (funext fun a => ?_)
      rw [Execution.change]
      ring
    rw [List.foldl_cons, ih, hone, executions, List.map_cons, List.sum_cons, add_assoc]

omit [DecidableEq H] in
/-- The value does not change where no account does. -/
theorem BrokerNet.value_congr
    (h : ∀ k, (t.chains k).currentBlock = (s.chains k).currentBlock) : t.value sys = s.value sys := by
  rw [value, value, total, total]
  refine Finset.sum_congr rfl fun k _ => ?_
  rw [h k]

omit [DecidableEq H] in
/-- Nothing is executed where transactions are sent. -/
theorem Sends.value_eq {txs : List Transaction} (h : Sends sys s t txs) :
    ∃ es, t.ledger = s.ledger ++ es ∧ t.value sys = s.value sys +
      (es.map fun e => sys.kept e.shard (e.change sys.place)).sum := by
  refine ⟨[], by rw [h.ledger, List.append_nil], ?_⟩
  rw [List.map_nil, List.sum_nil, add_zero]
  exact BrokerNet.value_congr fun k => by rw [h.chains]

/-- **A step changes the value by what is executed.** -/
theorem BrokerSound.value_step (hs : BrokerSound sys s) (h : s.step sys a = some t) :
    ∃ es, t.ledger = s.ledger ++ es ∧ t.value sys = s.value sys +
      (es.map fun e => sys.kept e.shard (e.change sys.place)).sum := by
  cases a with
  | batch txs hashes =>
    obtain ⟨made, plain, hbatch⟩ := BrokerNet.step_batch hs.known h
    exact hbatch.sends.value_eq
  | deliver k =>
    obtain ⟨e, -, rfl⟩ := BrokerNet.step_deliver h
    refine ⟨[], (List.append_nil _).symm, ?_⟩
    rw [BrokerNet.value_congr fun i => ?_, List.map_nil, List.sum_nil, add_zero]
    · dsimp only
      rw [Function.update_apply]
      split
      · rename_i hi
        rw [BlockChain.received_currentBlock, hi]
      · rfl
  | commit sid miner now =>
    obtain ⟨hk, bc, rest, -, -, -, -, hbal, rfl⟩ := BrokerNet.step_commit hs.known hs.inPlace h
    refine ⟨_, rfl, ?_⟩
    have hup := total_update
      (fun k bc => sys.kept k (balanceOf bc.currentBlock.header.stateRoot)) s.chains hk bc
    rw [hbal, kept_foldl] at hup
    simp only [BrokerNet.value, BrokerNet.balance] at hup ⊢
    linarith only [hup]
  | blockInfo k hashes =>
    obtain ⟨b, made, -, -, hsends, -⟩ := BrokerNet.step_blockInfo hs.known h
    exact hsends.value_eq

/-- What is true of every state that is reached: it is sound, and the value has changed
by what was executed. -/
theorem BrokerSound.of_reaches
    (hr : Reaches (BrokerNet.step sys) (fun _ _ => True) (BrokerNet.start sys) s) :
    BrokerSound sys s ∧ s.value sys = (BrokerNet.start sys).value sys +
      (s.ledger.map fun e => sys.kept e.shard (e.change sys.place)).sum := by
  refine hr.invariant (fun s => BrokerSound sys s ∧ s.value sys = (BrokerNet.start sys).value sys +
    (s.ledger.map fun e => sys.kept e.shard (e.change sys.place)).sum) ⟨.start, ?_⟩ ?_
  · simp [BrokerNet.start]
  · intro s a t hs _ h
    obtain ⟨hs, hval⟩ := hs
    obtain ⟨es, hledger, hstep⟩ := hs.value_step h
    refine ⟨hs.step h, ?_⟩
    rw [hstep, hval, hledger, List.map_append, List.sum_append, add_assoc]

/-- **What all hold together changes by what the raw messages are off by.** -/
theorem BrokerSound.value_eq
    (hr : Reaches (BrokerNet.step sys) (fun _ _ => True) (BrokerNet.start sys) s) :
    s.value sys = (BrokerNet.start sys).value sys + ∑ m ∈ s.raws, s.offBy sys m := by
  obtain ⟨hs, hval⟩ := BrokerSound.of_reaches hr
  rw [hval, hs.sum_kept_change]

/-! ## When a raw message is passed on -/

namespace BrokerSound

omit [DecidableEq H] in
theorem senderPays_iff (s : BrokerNet H) (m : BrokerRawMeg) : s.SenderPays m ↔ 0 < s.paid m := by
  rw [BrokerNet.paid, List.countP_pos_iff]
  exact exists_congr fun e => and_congr_right fun _ => decide_eq_true_iff.symm

omit [DecidableEq H] in
theorem brokerPays_iff (s : BrokerNet H) (m : BrokerRawMeg) :
    s.BrokerPays sys m ↔ 0 < s.credited sys m := by
  rw [BrokerNet.credited, List.countP_pos_iff]
  exact exists_congr fun e => and_congr_right fun _ => decide_eq_true_iff.symm

omit [DecidableEq H] in
/-- How often a transaction is in the ledger, at most. -/
theorem countP_ledger_le (s : BrokerNet H) (P : Transaction → Prop) [DecidablePred P] :
    s.ledger.countP (fun e => P e.tx) ≤ (s.all sys).countP P := by
  rw [BrokerNet.all, Multiset.countP_add, Multiset.coe_countP, List.countP_map]
  exact Nat.le_add_left _ _

omit [DecidableEq H] in
/-- The sender pays once at most. -/
theorem paid_le (hs : BrokerSound sys s) (hm : m ∈ s.raws) : s.paid m ≤ 1 := by
  calc s.paid m ≤ s.ledger.countP fun e => m.First e.tx :=
        List.countP_mono_left fun e _ h => by simpa using (of_decide_eq_true h : m.Pays e).1
    _ ≤ (s.all sys).countP m.First := countP_ledger_le s m.First
    _ = 1 := hs.known.once m hm

omit [DecidableEq H] in
/-- When all is executed, all that was made is in the ledger. -/
theorem countP_ledger_eq (hdone : s.Executed sys) {P : Transaction → Prop} [DecidablePred P]
    (hP : ∀ tx, P tx → tx.rawTxHash ≠ []) :
    s.ledger.countP (fun e => P e.tx) = (s.all sys).countP P := by
  have hflight : (s.flight.flatMap (·.2)).countP (fun tx => P tx) = 0 := by
    refine List.countP_eq_zero.mpr fun tx htx => ?_
    obtain ⟨e, he, htx⟩ := List.mem_flatMap.mp htx
    simpa using fun h => hP tx h (hdone.1 e he tx htx)
  have hpool : (total sys.shardNum (fun _ bc => (bc.pooled : Multiset Transaction))
      s.chains).countP P = 0 := by
    refine Multiset.countP_eq_zero.mpr fun tx htx h => ?_
    obtain ⟨k, hk, htx⟩ := mem_total.mp htx
    exact hP tx h (hdone.2 k hk tx (Multiset.mem_coe.mp htx))
  rw [BrokerNet.all, Multiset.countP_add, Multiset.countP_add, hpool, Multiset.coe_countP, hflight,
    Multiset.coe_countP, List.countP_map, zero_add, zero_add]
  rfl

omit [DecidableEq H] in
/-- Where the broker is apart, a second transaction credits each time the first was named. -/
theorem credited_eq (hs : BrokerSound sys s) (hdone : s.Executed sys) (hm : m ∈ s.raws)
    (hapart : BrokerNet.Apart sys m) : s.credited sys m = s.named m := by
  have hv := (hs.known.raw m hm).1
  have hall : s.credited sys m = s.ledger.countP fun e => m.Second e.tx := by
    refine List.countP_congr fun e he => ?_
    rw [decide_eq_true_iff, decide_eq_true_iff]
    refine and_iff_left_of_imp fun hsecond hhome => ?_
    rw [← hs.inPlace.ledger e he, hsecond.route hv] at hhome
    exact absurd hhome hapart.2
  rw [hall, countP_ledger_eq hdone fun tx h => by rw [BrokerRawMeg.Second.rawTxHash h]; exact hv.txHash,
    hs.known.second m hm]

omit [DecidableEq H] in
/-- What the broker has gained by a raw message, in all shards. -/
theorem sum_moved_broker (hs : BrokerSound sys s) (hm : m ∈ s.raws) :
    ∑ k ∈ Finset.range sys.shardNum, s.moved sys m k m.broker =
      s.paid m * takenIn sys m - s.credited sys m * paidOut sys m := by
  have hv := (hs.known.raw m hm).1
  have hs₁ : m.broker ≠ m.tx.sender := fun heq => hv.sender (heq ▸ hv.broker_mem)
  have hr₁ : m.broker ≠ m.tx.recipient := fun heq => hv.recipient (heq ▸ hv.broker_mem)
  have hfirst : ∀ k, firstEffect sys m k m.broker =
      if sys.place m.tx.sender = k then takenIn sys m else 0 := by
    intro k
    rw [firstEffect, takenIn]
    simp [hs₁]
  have hsecond : ∀ k, secondEffect sys m k m.broker =
      if sys.place m.tx.recipient = k then -paidOut sys m else 0 := by
    intro k
    rw [secondEffect, paidOut]
    simp only [hr₁, if_false, true_and, zero_add]
    split
    · split
      · rfl
      · exact neg_zero.symm
    · rfl
  simp only [hs.moved_eq hm, hfirst, hsecond, Finset.sum_add_distrib, mul_ite, mul_zero,
    Finset.sum_ite_eq, Finset.mem_range, sys.place_lt, if_true]
  ring

omit [DecidableEq H] in
/-- What the sender has lost. -/
theorem moved_sender (hs : BrokerSound sys s) (hm : m ∈ s.raws) :
    s.moved sys m (sys.place m.tx.sender) m.tx.sender = -(s.paid m * m.tx.amount) := by
  have hv := (hs.known.raw m hm).1
  have hne : m.tx.sender ≠ m.broker := fun heq => hv.sender (heq ▸ hv.broker_mem)
  rw [hs.moved_eq hm, firstEffect, secondEffect]
  simp [hne, hv.crossing]

omit [DecidableEq H] in
/-- What the recipient has gained. -/
theorem moved_recipient (hs : BrokerSound sys s) (hm : m ∈ s.raws) :
    s.moved sys m (sys.place m.tx.recipient) m.tx.recipient = s.credited sys m * m.tx.amount := by
  have hv := (hs.known.raw m hm).1
  have hne : m.tx.recipient ≠ m.broker := fun heq => hv.recipient (heq ▸ hv.broker_mem)
  rw [hs.moved_eq hm, firstEffect, secondEffect]
  simp [hne, hv.crossing.symm]

omit [DecidableEq H] in
/-- What the broker has gained where the sender is at home. -/
theorem moved_broker (hs : BrokerSound sys s) (hm : m ∈ s.raws) :
    s.moved sys m (sys.place m.tx.sender) m.broker = s.paid m * takenIn sys m ∧
      s.moved sys m (sys.place m.tx.recipient) m.broker = -(s.credited sys m * paidOut sys m) := by
  have hv := (hs.known.raw m hm).1
  have hs₁ : m.broker ≠ m.tx.sender := fun heq => hv.sender (heq ▸ hv.broker_mem)
  have hr₁ : m.broker ≠ m.tx.recipient := fun heq => hv.recipient (heq ▸ hv.broker_mem)
  rw [hs.moved_eq hm, hs.moved_eq hm, firstEffect, secondEffect, firstEffect, secondEffect, takenIn,
    paidOut]
  constructor
  · simp [hs₁, hv.crossing]
  · by_cases hhome : sys.place m.broker = sys.place m.tx.recipient
    · simp [hr₁, hv.crossing.symm, hhome]
    · simp [hr₁, hv.crossing.symm, hhome]

omit [DecidableEq H] in
/-- Nothing has changed where nothing is to be paid, or nobody pays. -/
theorem noEffect_iff (hs : BrokerSound sys s) (hm : m ∈ s.raws) :
    s.NoEffect sys m ↔ m.tx.amount = 0 ∨ (s.paid m = 0 ∧ s.credited sys m = 0) := by
  constructor
  · intro h
    have hsender := hs.moved_sender hm
    have hrecipient := hs.moved_recipient hm
    rw [h, eq_comm, neg_eq_zero, mul_eq_zero, Nat.cast_eq_zero] at hsender
    rw [h, eq_comm, mul_eq_zero, Nat.cast_eq_zero] at hrecipient
    rcases hsender with hpaid | hzero
    · exact hrecipient.symm.imp_right fun hcredited => ⟨hpaid, hcredited⟩
    · exact .inl hzero
  · rintro (hzero | ⟨hpaid, hcredited⟩) k a
    · rw [hs.moved_eq hm, firstEffect, secondEffect]
      simp [hzero]
    · rw [hs.moved_eq hm, hpaid, hcredited]
      simp

omit [DecidableEq H] in
/-- An amount is passed on where it is paid and credited once, and the broker is apart. -/
theorem passed_iff (hs : BrokerSound sys s) (hm : m ∈ s.raws) (hv : m.tx.amount ≠ 0) :
    s.Passed sys m ↔ s.paid m = 1 ∧ s.credited sys m = 1 ∧ BrokerNet.Apart sys m := by
  have hcross := (hs.known.raw m hm).1.crossing
  have hsum := hs.sum_moved_broker hm
  constructor
  · rintro ⟨hsender, hrecipient, hbroker⟩
    rw [hs.moved_sender hm, neg_inj] at hsender
    rw [hs.moved_recipient hm] at hrecipient
    have hpaid : s.paid m = 1 := by exact_mod_cast (mul_eq_right₀ hv).mp hsender
    have hcredited : s.credited sys m = 1 := by exact_mod_cast (mul_eq_right₀ hv).mp hrecipient
    rw [hbroker, hpaid, hcredited, Nat.cast_one, one_mul, one_mul, takenIn, paidOut] at hsum
    refine ⟨hpaid, hcredited, fun hhome => ?_, fun hhome => ?_⟩
    · rw [if_pos hhome, if_neg fun h => hcross (h.symm.trans hhome), sub_zero] at hsum
      exact hv hsum.symm
    · rw [if_pos hhome, if_neg fun h => hcross (hhome.symm.trans h), zero_sub] at hsum
      exact hv (neg_eq_zero.mp hsum.symm)
  · rintro ⟨hpaid, hcredited, hs₁, hr₁⟩
    refine ⟨?_, ?_, ?_⟩
    · rw [hs.moved_sender hm, hpaid, Nat.cast_one, one_mul]
    · rw [hs.moved_recipient hm, hcredited, Nat.cast_one, one_mul]
    · rw [hsum, takenIn, paidOut, if_neg hs₁, if_neg hr₁, mul_zero, mul_zero, sub_zero]

omit [DecidableEq H] in
/-- What is passed on did not go through the accounts of the broker. -/
theorem not_throughBroker (hs : BrokerSound sys s) (hm : m ∈ s.raws) (hv : m.tx.amount ≠ 0) :
    ¬ s.ThroughBroker sys m := by
  rintro ⟨hin, hout⟩
  have hcross := (hs.known.raw m hm).1.crossing
  rw [(hs.moved_broker hm).1, takenIn] at hin
  rw [(hs.moved_broker hm).2, paidOut, neg_inj] at hout
  have hs₁ : sys.place m.broker = sys.place m.tx.sender := by
    by_contra hne
    rw [if_neg hne, mul_zero] at hin
    exact hv hin.symm
  rw [if_neg fun h => hcross (h.symm.trans hs₁), mul_zero] at hout
  exact hv hout.symm

omit [DecidableEq H] in
/-- **When a raw message is passed on or without effect**, once all is executed. -/
theorem passed_or_noEffect_iff (hs : BrokerSound sys s) (hdone : s.Executed sys) (hm : m ∈ s.raws) :
    s.Passed sys m ∨ s.NoEffect sys m ↔ s.Safe sys m := by
  rw [hs.noEffect_iff hm, BrokerNet.Safe, senderPays_iff, brokerPays_iff]
  by_cases hv : m.tx.amount = 0
  · exact iff_of_true (.inr (.inl hv)) (.inl hv)
  · rw [hs.passed_iff hm hv]
    have hpaid := hs.paid_le hm
    have hcredited := hs.credited_eq hdone hm
    constructor
    · rintro (⟨h₁, h₂, hapart⟩ | h | ⟨h₁, h₂⟩)
      · exact .inr (.inl ⟨hapart, by omega, (hcredited hapart).symm.trans h₂⟩)
      · exact absurd h hv
      · exact .inr (.inr ⟨by omega, by omega⟩)
    · rintro (h | ⟨hapart, h₁, h₂⟩ | ⟨h₁, h₂⟩)
      · exact absurd h hv
      · exact .inl ⟨by omega, (hcredited hapart).trans h₂, hapart⟩
      · exact .inr (.inr ⟨by omega, by omega⟩)

omit [DecidableEq H] in
/-- What is passed on or without effect is off by nothing. -/
theorem offBy_eq_zero (hs : BrokerSound sys s) (hm : m ∈ s.raws)
    (h : s.Passed sys m ∨ s.NoEffect sys m) : s.offBy sys m = 0 := by
  rw [hs.noEffect_iff hm] at h
  rw [BrokerNet.offBy, takenIn, paidOut]
  by_cases hv : m.tx.amount = 0
  · simp [hv]
  · rw [hs.passed_iff hm hv] at h
    rcases h with ⟨h₁, h₂, hs₁, hr₁⟩ | h | ⟨h₁, h₂⟩
    · rw [h₁, h₂, if_neg hs₁, if_neg hr₁]
      ring
    · exact absurd h hv
    · rw [h₁, h₂]
      ring

end BrokerSound

/-- **When broker shards conserve value.** In every run of every system, once all broker
transactions that were made are executed:

* users and brokers hold together what they held at the start, and each raw message is
  passed on or without any effect, if and only if for each raw message with an amount,
  either the broker is at home in neither of its shards, the sender can pay when the first
  transaction is executed, and block informations have named that transaction once; or
  neither the sender nor, in the recipient's shard, the broker can pay;
* an amount is never passed on through the accounts of the broker: it is that, or without
  any effect, only where nobody can pay. -/
theorem broker_value_iff (sys : BrokerSystem H) {s : BrokerNet H}
    (hr : Reaches (BrokerNet.step sys) (fun _ _ => True) (BrokerNet.start sys) s)
    (hdone : s.Executed sys) :
    ((s.value sys = (BrokerNet.start sys).value sys ∧
        ∀ m ∈ s.raws, s.Passed sys m ∨ s.NoEffect sys m) ↔ ∀ m ∈ s.raws, s.Safe sys m) ∧
      ((∀ m ∈ s.raws, (s.Passed sys m ∧ s.ThroughBroker sys m) ∨ s.NoEffect sys m) ↔
        ∀ m ∈ s.raws, m.tx.amount = 0 ∨ (¬ s.SenderPays m ∧ ¬ s.BrokerPays sys m)) := by
  obtain ⟨hs, -⟩ := BrokerSound.of_reaches hr
  refine ⟨⟨fun h m hm => (hs.passed_or_noEffect_iff hdone hm).mp (h.2 m hm), fun h => ?_⟩,
    forall₂_congr fun m hm => ?_⟩
  · have hall : ∀ m ∈ s.raws, s.Passed sys m ∨ s.NoEffect sys m :=
      fun m hm => (hs.passed_or_noEffect_iff hdone hm).mpr (h m hm)
    refine ⟨?_, hall⟩
    rw [BrokerSound.value_eq hr, Finset.sum_eq_zero fun m hm => hs.offBy_eq_zero hm (hall m hm),
      add_zero]
  · rw [hs.noEffect_iff hm, BrokerSound.senderPays_iff, BrokerSound.brokerPays_iff,
      Nat.pos_iff_ne_zero, Nat.pos_iff_ne_zero, not_not, not_not]
    refine ⟨fun h => h.elim (fun hp => .inl ?_) id, .inr⟩
    by_contra hv
    exact hs.not_throughBroker hm hv hp.2

/-! ## Runs -/

/-- Shards with one broker, `c`. Of three shards, it is at home in shard 0, `a` in shard 1,
`b` in shard 2; of two shards, `a` and `c` in shard 0, `b` in shard 1. -/
def oneBroker (shardNum : ℕ) (h : 0 < shardNum) : BrokerSystem FreeHash where
  chainConfig := { fourNodesChain with shardNums := shardNum, shardNum := shardNum }
  injectSpeed := 10
  brokerAddress := ["c"]
  addresses := {"a", "b", "c"}
  shards := rfl
  pos := h
  brokers b hb := by
    rw [List.mem_singleton.mp hb]
    decide

/-- Two shards. -/
abbrev twoBrokerShards : BrokerSystem FreeHash := oneBroker 2 (by decide)

/-- Three shards. -/
abbrev threeBrokerShards : BrokerSystem FreeHash := oneBroker 3 (by decide)

/-- A raw transaction is handled and its first transaction is committed; the block is
reported as often as there are hashes, and the second transactions are committed. -/
def brokerRun (sys : BrokerSystem FreeHash) (tx : Transaction) (hashes : List Bytes) :
    List BrokerNetAction :=
  [.batch [tx] [[2]]] ++ List.replicate sys.shardNum (.deliver 0) ++
    [.commit (sys.place "a") 0 0] ++ hashes.map (fun h => .blockInfo 0 [h]) ++
    List.replicate (sys.shardNum * hashes.length) (.deliver 0) ++ [.commit (sys.place "b") 0 0]

/-- **Passed on**: the broker is at home in a third shard, the sender pays, and the block
is reported once. -/
theorem broker_value_iff_apart :
    ∃ s, Reaches (BrokerNet.step threeBrokerShards) (fun _ _ => True)
        (BrokerNet.start threeBrokerShards) s ∧
      s.value threeBrokerShards = (BrokerNet.start threeBrokerShards).value threeBrokerShards ∧
      s.balance 2 "b" = initBalance + 5 := by
  have hrun : ((runWith (BrokerNet.step threeBrokerShards) (fun _ _ => True)
      (BrokerNet.start threeBrokerShards)
      (brokerRun threeBrokerShards crossTransaction [[3]])).any fun s => decide
        (s.Executed threeBrokerShards ∧ (∀ m ∈ s.raws, s.Safe threeBrokerShards m) ∧
          s.balance 2 "b" = initBalance + 5)) = true := by
    decide +kernel
  obtain ⟨s, hr, hdone, hsafe, hbal⟩ := Reaches.exists_of_runWith hrun
  exact ⟨s, hr, ((broker_value_iff _ hr hdone).1.mpr hsafe).1, hbal⟩

/-- **Value out of nothing**: the broker is at home in the sender's shard, so that it is
paid and does not pay; or the sender cannot pay, and the recipient is paid; or the block
is reported twice, and the recipient is paid twice. -/
theorem broker_value_created :
    (∃ s, Reaches (BrokerNet.step twoBrokerShards) (fun _ _ => True)
        (BrokerNet.start twoBrokerShards) s ∧ s.Executed twoBrokerShards ∧
      s.value twoBrokerShards =
        (BrokerNet.start twoBrokerShards).value twoBrokerShards + 5) ∧
    (∃ s, Reaches (BrokerNet.step threeBrokerShards) (fun _ _ => True)
        (BrokerNet.start threeBrokerShards) s ∧ s.Executed threeBrokerShards ∧
      s.value threeBrokerShards =
        (BrokerNet.start threeBrokerShards).value threeBrokerShards + (initBalance + 1)) ∧
    ∃ s, Reaches (BrokerNet.step threeBrokerShards) (fun _ _ => True)
        (BrokerNet.start threeBrokerShards) s ∧ s.Executed threeBrokerShards ∧
      s.value threeBrokerShards =
        (BrokerNet.start threeBrokerShards).value threeBrokerShards + 5 := by
  have hhome : ((runWith (BrokerNet.step twoBrokerShards) (fun _ _ => True)
      (BrokerNet.start twoBrokerShards)
      (brokerRun twoBrokerShards crossTransaction [[3]])).any fun s => decide
        (s.Executed twoBrokerShards ∧ s.value twoBrokerShards =
          (BrokerNet.start twoBrokerShards).value twoBrokerShards + 5)) = true := by
    decide +kernel
  have hpoor : ((runWith (BrokerNet.step threeBrokerShards) (fun _ _ => True)
      (BrokerNet.start threeBrokerShards) (brokerRun threeBrokerShards
        { crossTransaction with value := some (initBalance + 1) } [[3]])).any fun s => decide
        (s.Executed threeBrokerShards ∧ s.value threeBrokerShards =
          (BrokerNet.start threeBrokerShards).value threeBrokerShards + (initBalance + 1))) =
      true := by
    decide +kernel
  have htwice : ((runWith (BrokerNet.step threeBrokerShards) (fun _ _ => True)
      (BrokerNet.start threeBrokerShards)
      (brokerRun threeBrokerShards crossTransaction [[3], [4]])).any fun s => decide
        (s.Executed threeBrokerShards ∧ s.value threeBrokerShards =
          (BrokerNet.start threeBrokerShards).value threeBrokerShards + 5)) = true := by
    decide +kernel
  exact ⟨Reaches.exists_of_runWith hhome, Reaches.exists_of_runWith hpoor,
    Reaches.exists_of_runWith htwice⟩

end BlockEmulator
