import BlockEmulator.RelayNet

/-!
# What is pending among relay shards

What is pooled and what is under way, measured by any additive quantity `g` of single
transactions: a number, an amount, a multiset of tokens. `NetState.pending` is the total,
and there is one rule for each step of the system:

* `pending_inject` — it grows by what is injected;
* `pending_deliver` — messages that arrive do not change it;
* `pending_commit` — it loses the block and gains the second phases that are due
  elsewhere.
-/

namespace BlockEmulator

open Accounting

variable {H : Type} {M : Type*}

/-- The second phase of a transaction. -/
def Transaction.second (tx : Transaction) : Transaction := { tx with relayed := true }

@[simp] theorem Transaction.second_txHash (tx : Transaction) : tx.second.txHash = tx.txHash := rfl

@[simp] theorem Transaction.second_relayed (tx : Transaction) : tx.second.relayed = true := rfl

@[simp] theorem Transaction.second_recipient (tx : Transaction) :
    tx.second.recipient = tx.recipient := rfl

@[simp] theorem Transaction.second_value (tx : Transaction) : tx.second.value = tx.value := rfl

/-- A quantity of all transactions that are not done. -/
def NetState.pending [AddCommMonoid M] (sys : RelaySystem H) (g : Transaction → M)
    (s : NetState H) : M :=
  total sys.shardNums (fun _ bc => (bc.pooled.map g).sum) s.chains + (s.sent.map g).sum

/-- A quantity of what a block makes due elsewhere. -/
def dueElsewhere [AddCommMonoid M] (place : Address → ℕ) (sid : ℕ) (g : Transaction → M)
    (tx : Transaction) : M :=
  if place tx.recipient ≠ sid then g tx.second else 0

variable [DecidableEq H] {sys : RelaySystem H} {s t : NetState H}

section

variable [AddCommMonoid M] (g : Transaction → M)

omit [DecidableEq H] in
/-- How the quantity changes where one chain and the messages change. -/
theorem NetState.pending_update (s : NetState H) {k : ℕ} (hk : k < sys.shardNums)
    (bc : BlockChain H) (fl : List (ℕ × Relay)) (u : Finset Bytes) :
    ({ chains := Function.update s.chains k bc, flight := fl, used := u } :
        NetState H).pending sys g + ((s.chains k).pooled.map g).sum + (s.sent.map g).sum =
      s.pending sys g + (bc.pooled.map g).sum + ((fl.flatMap fun e => e.2.txs).map g).sum := by
  have h := total_update (fun _ bc => (bc.pooled.map g).sum) s.chains hk bc
  rw [NetState.pending, NetState.pending, NetState.sent, add_right_comm (total _ _ _) _
    (((s.chains k).pooled.map g).sum), h]
  abel

/-- What a block sends out is what is due elsewhere, where recipients have homes. -/
theorem sum_due (place : Address → ℕ) {n : ℕ} {packed : List Transaction} (sid seqID : ℕ)
    (h : ∀ tx ∈ packed, place tx.recipient < n) :
    (((((List.range n).filter (· ≠ sid)).map fun i =>
        (i, (⟨secondPhase place i packed, sid, seqID⟩ : Relay))).flatMap
          fun e => e.2.txs).map g).sum = (packed.map (dueElsewhere place sid g)).sum := by
  have hsids : ((List.range n).filter (· ≠ sid)).Nodup := List.nodup_range.filter _
  have helse : packed.filter (fun tx => place tx.recipient ∈ (List.range n).filter (· ≠ sid)) =
      packed.filter fun tx => place tx.recipient ≠ sid := by
    refine List.filter_congr fun tx htx => ?_
    simp [h tx htx]
  rw [List.flatMap_map, ((secondPhase_perm place packed hsids).map g).sum_eq, List.map_map, helse]
  clear h helse
  induction packed with
  | nil => rfl
  | cons tx packed ih =>
    rw [List.map_cons, List.sum_cons, ← ih, dueElsewhere]
    by_cases hp : place tx.recipient = sid
    · simp [hp]
    · simp [hp, Transaction.second]

end

namespace NetSound

variable [AddCancelCommMonoid M] (g : Transaction → M)

/-- Injected transactions are pending. -/
theorem pending_inject (hs : NetSound sys s) {sid : ℕ} {txs : List Transaction}
    (h : s.step sys (.inject sid txs) = some t) :
    t.pending sys g = s.pending sys g + (txs.map g).sum := by
  obtain ⟨⟨hk, -, -⟩, rfl⟩ := NetState.step_inject h
  have hup := s.pending_update g hk ((s.chains sid).received txs) s.flight
    (s.used ∪ (txs.map (·.txHash)).toFinset)
  rw [BlockChain.received_pooled (hs.queue sid), List.map_append, List.sum_append, ← add_assoc,
    add_right_comm (s.pending sys g)] at hup
  exact add_right_cancel (add_right_cancel hup)

/-- What arrives is as pending as it was under way. -/
theorem pending_deliver (hs : NetSound sys s) {k : ℕ} (h : s.step sys (.deliver k) = some t) :
    t.pending sys g = s.pending sys g := by
  obtain ⟨e, he, rfl⟩ := NetState.step_deliver h
  have hup := s.pending_update g (hs.dest e (List.mem_of_getElem? he))
    ((s.chains e.1).received e.2.txs) (s.flight.eraseIdx k) s.used
  have hsent := ((NetState.sent_perm he).map g).sum_eq
  rw [List.map_append, List.sum_append] at hsent
  rw [BlockChain.received_pooled (hs.queue e.1), List.map_append, List.sum_append, hsent,
    add_assoc, add_assoc, add_assoc] at hup
  exact add_right_cancel hup

omit [DecidableEq H] in
/-- A commit takes the block out and makes second phases due elsewhere. -/
theorem pending_commit (hs : NetSound sys s) {sid seqID : ℕ} {bc : BlockChain H}
    {packed rest : List Transaction} (hk : sid < sys.shardNums)
    (ht : t = { chains := Function.update s.chains sid bc,
                flight := s.flight ++
                  ((List.range sys.shardNums).filter (· ≠ sid)).map fun i =>
                    (i, ⟨secondPhase sys.place i packed, sid, seqID⟩),
                used := s.used })
    (htxs : (s.chains sid).pooled = packed ++ rest) (hqueue : bc.txpool.txQueue = rest.map some) :
    t.pending sys g + (packed.map g).sum =
      s.pending sys g + (packed.map (dueElsewhere sys.place sid g)).sum := by
  have hhome : ∀ tx ∈ packed, sys.place tx.recipient < sys.shardNums := fun tx htx =>
    (hs.pooled sid hk tx (htxs ▸ List.mem_append_left _ htx)).1.home
  have hup := s.pending_update g hk bc (s.flight ++
    ((List.range sys.shardNums).filter (· ≠ sid)).map fun i =>
      (i, ⟨secondPhase sys.place i packed, sid, seqID⟩)) s.used
  rw [← ht, BlockChain.pooled_eq hqueue, htxs, List.flatMap_append, List.map_append,
    List.map_append, List.sum_append, List.sum_append, sum_due g sys.place sid seqID hhome,
    ← NetState.sent] at hup
  refine add_right_cancel (b := (rest.map g).sum + (s.sent.map g).sum) ?_
  calc t.pending sys g + (packed.map g).sum + ((rest.map g).sum + (s.sent.map g).sum)
      = t.pending sys g + ((packed.map g).sum + (rest.map g).sum) + (s.sent.map g).sum := by abel
    _ = _ := hup
    _ = _ := by abel

end NetSound

end BlockEmulator
