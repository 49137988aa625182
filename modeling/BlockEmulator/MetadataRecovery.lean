import Mathlib.Data.List.Permutation
import Mathlib.Data.Nat.Digits.Defs
import BlockEmulator.ChainQueries
import BlockEmulator.FinalResult
import BlockEmulator.KeyedUpdates

/-!
# Recovering the metadata of a run (`cmd/export_iot_tx_metadata`)

After a relay run, for each transaction its sender, its recipient and their shards are read
from the block databases: the chains of all shards are followed from their newest blocks
down, the two phases of each transaction are counted, and one row is written for each.

* `readShard_eq` — a chain is read whole, once, from the newest block to the genesis block.
* `recoverRows_eq` — where each phase is in one block of the right shard, there is one row
  for each transaction.
* `recoverRows_finished` — **recovery succeeds on every finished run** and reports the
  homes of all senders and recipients.
-/

namespace BlockEmulator

open StepSystem

variable {H : Type}

/-! ## The program -/

/-- `identity`. -/
structure Identity where
  /-- `tx` -/
  tx : Transaction
  /-- `senderShard`, `-1` before it is known -/
  senderShard : ℤ
  /-- `recipientShard`, `-1` before it is known -/
  recipientShard : ℤ
  /-- `originalCount` -/
  originalCount : ℕ
  /-- `relayCount` -/
  relayCount : ℕ
  deriving DecidableEq

/-- The map from nonces to identities. -/
abbrev Records : Type := AList fun _ : ℕ => Identity

/-- Why nothing is recovered; a path is given by its shard. -/
inductive RecoverError where
  /-- "invalid or out-of-window transaction in shard …" -/
  | invalidTransaction (sid : ℕ)
  /-- "conflicting transaction identity for nonce …" -/
  | conflictingIdentity (nonce : ℕ)
  /-- "missing canonical chain head: …" -/
  | missingHead (sid : ℕ)
  /-- "cycle in canonical chain: …" -/
  | cycle (sid : ℕ)
  /-- "missing canonical block: …" -/
  | missingBlock (sid : ℕ)
  /-- "invalid block identity: …" -/
  | invalidBlock (sid : ℕ)
  /-- "require a completed IoT v2 relay run" -/
  | notCompleted
  /-- "invalid run dimensions or transaction window" -/
  | invalidDimensions
  /-- "incomplete archive: got … of … transactions" -/
  | incompleteArchive (got want : ℕ)
  /-- "missing or repeated committed stage at nonce …" -/
  | missingOrRepeated (nonce : ℕ)
  /-- "same-shard relay at nonce …" -/
  | sameShardRelay (nonce : ℕ)
  /-- "transaction hash reused by different nonces" -/
  | hashReused
  deriving DecidableEq

/-- What `accumulate` makes of a record, or of a new one. -/
def countPhase (record : Option Identity) (e : ℕ × Transaction) : Identity :=
  let record := record.getD ⟨e.2, -1, -1, 0, 0⟩
  if e.2.relayed then { record with relayCount := record.relayCount + 1, recipientShard := e.1 }
  else { record with originalCount := record.originalCount + 1, senderShard := e.1 }

/-- `accumulate`. -/
def accumulate (records : Records) (tx : Option Transaction) (sid count : ℕ) :
    Except RecoverError Records :=
  match tx with
  | none => .error (.invalidTransaction sid)
  | some tx =>
    if tx.txHash = [] ∨ tx.hasBroker = true ∨ count ≤ tx.nonce then
      .error (.invalidTransaction sid)
    else
      let record := records.lookup tx.nonce
      if ∀ r ∈ record, r.tx.txHash = tx.txHash ∧ r.tx.sender = tx.sender ∧
          r.tx.recipient = tx.recipient then
        .ok (records.insert tx.nonce (countPhase record (sid, tx)))
      else .error (.conflictingIdentity tx.nonce)

/-- The loop over the transactions of a block. -/
def accumulateBody (sid count : ℕ) :
    Records → List (Option Transaction) → Except RecoverError Records
  | records, [] => .ok records
  | records, tx :: txs =>
    match accumulate records tx sid count with
    | .error e => .error e
    | .ok records => accumulateBody sid count records txs

section

variable [DecidableEq H]

/-- The loop of `readShard`, from a key on. A round visits a block that was not visited
before, so that it ends before there are more rounds than blocks. -/
def readBlocks (s : Storage H) (sid count : ℕ) :
    ℕ → H → List H → Records → Except RecoverError Records
  | 0, _, _, _ => .error (.cycle sid)
  | fuel + 1, key, visited, records =>
    if key ∈ visited then .error (.cycle sid)
    else
      match s.getBlock key with
      | none => .error (.missingBlock sid)
      | some block =>
        if block.hash ≠ key then .error (.invalidBlock sid)
        else
          match accumulateBody sid count records block.body with
          | .error e => .error e
          | .ok records =>
            if block.header.number = 0 then .ok records
            else readBlocks s sid count fuel block.header.parentBlockHash (key :: visited) records

/-- `readShard`, over a copy of the database. -/
def readShard (s : Storage H) (sid count : ℕ) (records : Records) :
    Except RecoverError Records :=
  match s.newestBlockHash with
  | none => .error (.missingHead sid)
  | some key => readBlocks s sid count (s.block.keys.length + 1) key [] records

/-- The loop of `recoverRows` over the shards. -/
def readShards (files : ℕ → Storage H) (count : ℕ) :
    List ℕ → Records → Except RecoverError Records
  | [], records => .ok records
  | sid :: sids, records =>
    match readShard (files sid) sid count records with
    | .error e => .error e
    | .ok records => readShards files count sids records

end

/-- `new(big.Int).SetBytes(…)`. -/
def setBytes (b : Bytes) : ℕ := b.foldl (fun n b => 256 * n + b.toNat) 0

/-- The row of a transaction. -/
def metadataRow (hash : Bytes) (nonce index : ℕ) (sender recipient : Address)
    (senderShard recipientShard : ℤ) (cross : String) : List String :=
  [Nat.repr (setBytes hash), Nat.repr nonce, Nat.repr index, sender, recipient,
    toString senderShard, toString recipientShard, cross]

/-- The loop of `recoverRows` over the nonces, with the hashes so far. -/
def emitRows (records : Records) (datasetStartTx : ℕ) :
    List ℕ → List String → Except RecoverError (List (List String))
  | [], _ => .ok []
  | nonce :: nonces, hashes =>
    match records.lookup nonce with
    | none => .error (.missingOrRepeated nonce)
    | some record =>
      if record.originalCount ≠ 1 ∨ 1 < record.relayCount then .error (.missingOrRepeated nonce)
      else if record.relayCount ≠ 0 ∧ record.recipientShard = record.senderShard then
        .error (.sameShardRelay nonce)
      else
        let recipientShard :=
          if record.relayCount = 0 then record.senderShard else record.recipientShard
        let cross := if record.relayCount = 0 then "0" else "1"
        let hash := Nat.repr (setBytes record.tx.txHash)
        if hash ∈ hashes then .error .hashReused
        else
          match emitRows records datasetStartTx nonces (hash :: hashes) with
          | .error e => .error e
          | .ok rows =>
            .ok (metadataRow record.tx.txHash nonce (datasetStartTx + nonce) record.tx.sender
              record.tx.recipient record.senderShard recipientShard cross :: rows)

/-- `paramsConfig.json`, `run_context.json` and `run_status.json`, as far as they are
read. -/
structure RunFiles where
  /-- `SpringIOTMode` -/
  springIOTMode : ℤ
  /-- `SpringIOTIdentityMode` -/
  springIOTIdentityMode : ℤ
  /-- `ConsensusMethod` -/
  consensusMethod : ℤ
  /-- `DatasetStartTx` -/
  datasetStartTx : ℤ
  /-- `TotalDataSize` -/
  totalDataSize : ℤ
  /-- `Shards` -/
  shards : ℤ
  /-- `Nodes` -/
  nodes : ℤ
  /-- `State` -/
  state : String

/-- The first row. -/
def metadataHeader : List String :=
  ["TxHash (Byte -> Big Int)", "Tx local nonce", "Dataset row index", "Sender address",
    "Recipient address", "Sender shard", "Recipient shard", "Cross shard"]

/-- `recoverRows`. -/
def recoverRows [DecidableEq H] (run : RunFiles) (files : ℕ → Storage H) :
    Except RecoverError (List (List String)) :=
  if run.state ≠ "completed" ∨ run.springIOTMode ≠ 1 ∨ run.springIOTIdentityMode ≠ 2 ∨
      run.consensusMethod ≠ 3 then .error .notCompleted
  else if run.shards ≤ 0 ∨ run.nodes ≤ 0 ∨ run.datasetStartTx < 0 ∨ run.totalDataSize ≤ 0 then
    .error .invalidDimensions
  else
    let count := run.totalDataSize.toNat
    match readShards files count (List.range run.shards.toNat) ∅ with
    | .error e => .error e
    | .ok records =>
      if records.keys.length ≠ count then .error (.incompleteArchive records.keys.length count)
      else
        match emitRows records run.datasetStartTx.toNat (List.range count) [] with
        | .error e => .error e
        | .ok rows => .ok (metadataHeader :: rows)

/-! ## Counting phases -/

/-- Who a transaction is. -/
def Transaction.ident (tx : Transaction) : Bytes × Address × Address :=
  (tx.txHash, tx.sender, tx.recipient)

@[simp] theorem Transaction.ident_second (tx : Transaction) : tx.second.ident = tx.ident := rfl

/-- Whether a transaction can be counted, where each nonce is of one transaction. -/
structure Countable (ident : ℕ → Bytes × Address × Address) (count : ℕ) (tx : Transaction) :
    Prop where
  /-- it has a hash -/
  txHash : tx.txHash ≠ []
  /-- it is no broker transaction -/
  hasBroker : tx.hasBroker = false
  /-- its nonce is in the window -/
  nonce : tx.nonce < count
  /-- it is the one with its nonce -/
  ident : tx.ident = ident tx.nonce

/-- Whether each record is of the transaction with its nonce. -/
def Consistent (ident : ℕ → Bytes × Address × Address) (records : Records) : Prop :=
  ∀ n, ∀ r ∈ records.lookup n, r.tx.ident = ident n

/-- The records after some phases in some shards. -/
def recorded (records : Records) (phases : List (ℕ × Transaction)) : Records :=
  phases.foldl (KeyedUpdates.updateAt (fun e => e.2.nonce) countPhase) records

section

variable {ident : ℕ → Bytes × Address × Address} {count sid : ℕ} {records : Records}
  {tx : Transaction} {txs : List Transaction}

theorem recorded_append (records : Records) (es es' : List (ℕ × Transaction)) :
    recorded records (es ++ es') = recorded (recorded records es) es' := List.foldl_append

theorem countPhase_ident (record : Option Identity) (e : ℕ × Transaction)
    (h : ∀ r ∈ record, r.tx.ident = e.2.ident) : (countPhase record e).tx.ident = e.2.ident := by
  have htx : (record.getD ⟨e.2, -1, -1, 0, 0⟩).tx.ident = e.2.ident := by
    cases record with
    | none => rfl
    | some r => exact h r rfl
  rw [countPhase]
  split <;> exact htx

/-- A phase that can be counted is counted. -/
theorem accumulate_eq (sid : ℕ) (hr : Consistent ident records) (h : Countable ident count tx) :
    accumulate records (some tx) sid count = .ok (recorded records [(sid, tx)]) ∧
      Consistent ident (recorded records [(sid, tx)]) := by
  have hsame : ∀ r ∈ records.lookup tx.nonce, r.tx.ident = tx.ident := fun r hmem =>
    (hr tx.nonce r hmem).trans h.ident.symm
  constructor
  · have hvalid : ¬ (tx.txHash = [] ∨ tx.hasBroker = true ∨ count ≤ tx.nonce) := by
      rintro (hnil | hb | hle)
      · exact h.txHash hnil
      · rw [h.hasBroker] at hb
        cases hb
      · exact absurd h.nonce (not_lt.mpr hle)
    rw [accumulate, if_neg hvalid]
    dsimp only
    rw [if_pos fun r hmem => ?_]
    · rfl
    · obtain ⟨h₁, h₂⟩ := Prod.mk.inj (hsame r hmem)
      exact ⟨h₁, Prod.mk.inj h₂⟩
  · intro n r hmem
    rw [recorded, List.foldl_cons, List.foldl_nil, KeyedUpdates.lookup_updateAt] at hmem
    split at hmem
    · rename_i hn
      obtain rfl := Option.some.inj hmem
      subst hn
      exact (countPhase_ident _ _ hsame).trans h.ident
    · exact hr n r hmem

/-- The loop over the transactions of a block counts them. -/
theorem accumulateBody_eq (sid : ℕ) (hr : Consistent ident records) (h : ∀ tx ∈ txs, Countable ident count tx) :
    accumulateBody sid count records (txs.map some) =
        .ok (recorded records (txs.map fun tx => (sid, tx))) ∧
      Consistent ident (recorded records (txs.map fun tx => (sid, tx))) := by
  induction txs generalizing records with
  | nil => exact ⟨rfl, hr⟩
  | cons tx txs ih =>
    obtain ⟨hone, hr'⟩ := accumulate_eq sid hr (h tx List.mem_cons_self)
    obtain ⟨hrest, hr''⟩ := ih hr' fun t ht => h t (List.mem_cons_of_mem _ ht)
    rw [List.map_cons, List.map_cons, accumulateBody, hone]
    exact ⟨hrest, hr''⟩

/-- Two blocks one after the other are one. -/
theorem accumulateBody_append (records : Records) (txs txs' : List (Option Transaction)) :
    accumulateBody sid count records (txs ++ txs') =
      match accumulateBody sid count records txs with
      | .error e => .error e
      | .ok records => accumulateBody sid count records txs' := by
  induction txs generalizing records with
  | nil => rfl
  | cons tx txs ih =>
    rw [List.cons_append, accumulateBody, accumulateBody]
    cases accumulate records tx sid count with
    | error e => rfl
    | ok records => exact ih records

end

/-! ## Reading a chain -/

section

variable [DecidableEq H] {cc : ChainConfig H} {s : Storage H} {bs : List (Block H)} {b : Block H}
  {sid count : ℕ} {records : Records}

/-- The blocks of a chain are stored under different hashes. -/
theorem Stored.hash_nodup (h : Stored cc s bs) : (bs.map (·.hash)).Nodup := by
  refine List.Nodup.map_on (fun b hb c hc heq => ?_) h.linked.nodup
  have hget := h.getBlock hb
  rw [heq, h.getBlock hc] at hget
  exact (Option.some.inj hget).symm

/-- From a block on, what is below it is read, down to the genesis block. -/
theorem readBlocks_eq {fuel : ℕ} {visited : List H} (hl : Linked (b :: bs))
    (hget : ∀ c ∈ b :: bs, s.getBlock c.hash = some c) (hnd : ((b :: bs).map (·.hash)).Nodup)
    (hnew : ∀ c ∈ b :: bs, c.hash ∉ visited) (hfuel : bs.length < fuel) :
    readBlocks s sid count fuel b.hash visited records =
      accumulateBody sid count records ((b :: bs).flatMap (·.body)) := by
  induction bs generalizing fuel b visited records with
  | nil =>
    obtain ⟨fuel, rfl⟩ := Nat.exists_eq_succ_of_ne_zero (Nat.ne_of_gt hfuel)
    rw [readBlocks, if_neg (hnew b List.mem_cons_self), hget b List.mem_cons_self]
    dsimp only
    rw [if_neg (not_not.mpr rfl), List.flatMap_cons, List.flatMap_nil, List.append_nil]
    have hzero : b.header.number = 0 := hl
    cases accumulateBody sid count records b.body with
    | error e => rfl
    | ok records => exact if_pos hzero
  | cons c bs ih =>
    obtain ⟨fuel, rfl⟩ := Nat.exists_eq_succ_of_ne_zero (Nat.ne_of_gt (Nat.zero_lt_of_lt hfuel))
    obtain ⟨hnum, hpar, hrest⟩ := hl
    rw [readBlocks, if_neg (hnew b List.mem_cons_self), hget b List.mem_cons_self]
    dsimp only
    rw [if_neg (not_not.mpr rfl), List.flatMap_cons, accumulateBody_append]
    cases accumulateBody sid count records b.body with
    | error e => rfl
    | ok records =>
      dsimp only
      rw [if_neg (by omega), hpar]
      obtain ⟨hb, hnd'⟩ := List.nodup_cons.mp hnd
      refine ih hrest (fun d hd => hget d (List.mem_cons_of_mem _ hd)) hnd' (fun d hd => ?_)
        (Nat.lt_of_succ_lt_succ hfuel)
      -- the block that was visited last has another hash
      rw [List.mem_cons, not_or]
      exact ⟨fun heq => hb (List.mem_map.mpr ⟨d, hd, heq⟩), hnew d (List.mem_cons_of_mem _ hd)⟩

/-- **A chain is read whole**, each block once. -/
theorem readShard_eq (h : Stored cc s bs) (hne : bs ≠ []) :
    readShard s sid count records = accumulateBody sid count records (bs.flatMap (·.body)) := by
  obtain ⟨b, bs, rfl⟩ := List.exists_cons_of_ne_nil hne
  have hlen : s.block.keys.length = (b :: bs).length := by
    rw [AList.keys, List.keys, List.length_map,
      ← (h.forEachBlock_perm h.linked.nodup fun _ _ => true).length_eq, Storage.forEachBlock,
      List.length_map, List.length_mergeSort]
  rw [readShard, h.newest, List.head?_cons, Option.map_some]
  dsimp only
  refine readBlocks_eq h.linked (fun c hc => h.getBlock hc) h.hash_nodup nofun ?_
  rw [hlen, List.length_cons]
  omega

/-- More rounds than blocks make no difference: the visited keys are different ones of the
database. -/
theorem readBlocks_fuel {fuel fuel' : ℕ} {key : H} {visited : List H} (hnd : visited.Nodup)
    (hsub : visited ⊆ s.block.keys) (hfuel : s.block.keys.length < fuel + visited.length)
    (hfuel' : s.block.keys.length < fuel' + visited.length) :
    readBlocks s sid count fuel key visited records =
      readBlocks s sid count fuel' key visited records := by
  have hle := (List.subperm_of_subset hnd hsub).length_le
  induction fuel generalizing fuel' key visited records with
  | zero => omega
  | succ fuel ih =>
    obtain ⟨fuel', rfl⟩ := Nat.exists_eq_succ_of_ne_zero (n := fuel') (by omega)
    rw [readBlocks, readBlocks]
    split
    · rfl
    rename_i hkey
    cases hget : s.getBlock key with
    | none => rfl
    | some block =>
      dsimp only
      have hmem : key ∈ s.block.keys := AList.mem_keys.mp
        (AList.lookup_isSome.mp (by rw [← Storage.getBlock, hget]; rfl))
      have hnd' : (key :: visited).Nodup := List.nodup_cons.mpr ⟨hkey, hnd⟩
      have hsub' : key :: visited ⊆ s.block.keys := List.cons_subset.mpr ⟨hmem, hsub⟩
      split
      · rfl
      · cases accumulateBody sid count records block.body with
        | error e => rfl
        | ok records =>
          dsimp only
          split
          · rfl
          · exact ih hnd' hsub' (by rw [List.length_cons]; omega)
              (by rw [List.length_cons]; omega) (List.subperm_of_subset hnd' hsub').length_le

end

/-- All phases that are executed, by shard and from the newest block on. -/
def phases (sids : List ℕ) (executed : ℕ → List Transaction) : List (ℕ × Transaction) :=
  sids.flatMap fun sid => (executed sid).map fun tx => (sid, tx)

theorem mem_phases {sids : List ℕ} {executed : ℕ → List Transaction} {k : ℕ} {tx : Transaction} :
    (k, tx) ∈ phases sids executed ↔ k ∈ sids ∧ tx ∈ executed k := by
  simp [phases]

/-- All shards are read. -/
theorem readShards_eq [DecidableEq H] {cc : ℕ → ChainConfig H} {files : ℕ → Storage H}
    {blocks : ℕ → List (Block H)} {executed : ℕ → List Transaction}
    {ident : ℕ → Bytes × Address × Address} {count : ℕ} {sids : List ℕ} (records : Records)
    (hstored : ∀ k ∈ sids, Stored (cc k) (files k) (blocks k) ∧ blocks k ≠ [])
    (hbody : ∀ k ∈ sids, (blocks k).flatMap (·.body) = (executed k).map some)
    (h : ∀ k ∈ sids, ∀ tx ∈ executed k, Countable ident count tx)
    (hr : Consistent ident records) :
    readShards files count sids records = .ok (recorded records (phases sids executed)) := by
  induction sids generalizing records with
  | nil => rfl
  | cons k sids ih =>
    obtain ⟨hk, hne⟩ := hstored k List.mem_cons_self
    obtain ⟨hread, hr'⟩ := accumulateBody_eq k hr (h k List.mem_cons_self)
    rw [readShards, readShard_eq hk hne, hbody k List.mem_cons_self, hread, phases,
      List.flatMap_cons, recorded_append]
    exact ih _ (fun i hi => hstored i (List.mem_cons_of_mem _ hi))
      (fun i hi => hbody i (List.mem_cons_of_mem _ hi))
      (fun i hi => h i (List.mem_cons_of_mem _ hi)) hr'

/-! ## Rows -/

/-- Whether a transaction was executed where it should, told by a key: its first phase in
one shard, its second phase in the other one, if there is another one. -/
def SettledPhases {κ : Type} [DecidableEq κ] (key : Transaction → κ) (P : List (ℕ × Transaction))
    (tx : Transaction) (a b : ℕ) : Prop :=
  (P.filter fun e => key e.2 = key tx).Perm
    (if a = b then [(a, tx)] else [(a, tx), (b, tx.second)])

/-- The record of a transaction that was executed where it should. -/
structure Finished (record : Identity) (tx : Transaction) (a b : ℕ) : Prop where
  /-- it is of this transaction -/
  ident : record.tx.ident = tx.ident
  /-- the first phase was executed once -/
  originalCount : record.originalCount = 1
  /-- the first phase was executed in this shard -/
  senderShard : record.senderShard = a
  /-- the second phase was executed in the other one, if there is one -/
  relay : (a = b ∧ record.relayCount = 0) ∨
    (a ≠ b ∧ record.relayCount = 1 ∧ record.recipientShard = b)

theorem SettledPhases.finished {P : List (ℕ × Transaction)} {tx : Transaction} {a b : ℕ}
    (h : SettledPhases (·.nonce) P tx a b) (hrel : tx.relayed = false) :
    ∃ record, (recorded ∅ P).lookup tx.nonce = some record ∧ Finished record tx a b := by
  rw [recorded, KeyedUpdates.lookup_foldl, AList.lookup_empty]
  rw [SettledPhases] at h
  split at h
  · rename_i hab
    rw [h.eq_singleton]
    refine ⟨_, rfl, ?_, ?_, ?_, .inl ⟨hab, ?_⟩⟩ <;> simp [countPhase, hrel]
  · rename_i hab
    -- the shard of the second phase may be read before that of the first
    rcases List.perm_pair.mp h with heq | heq
    · rw [heq]
      refine ⟨_, rfl, ?_, ?_, ?_, .inr ⟨hab, ?_, ?_⟩⟩ <;> simp [countPhase, hrel]
    · rw [heq]
      refine ⟨_, rfl, ?_, ?_, ?_, .inr ⟨hab, ?_, ?_⟩⟩ <;> simp [countPhase, hrel]

/-- The row of a transaction that went from one shard to another. -/
def settledRow (datasetStartTx : ℕ) (place : Address → ℕ) (tx : Transaction) : List String :=
  metadataRow tx.txHash tx.nonce (datasetStartTx + tx.nonce) tx.sender tx.recipient
    (place tx.sender) (place tx.recipient)
    (if place tx.sender = place tx.recipient then "0" else "1")

/-- A number can be read back from its digits. -/
theorem decimal_injective {m n : ℕ} (h : Nat.repr m = Nat.repr n) : m = n := by
  have hdigits : Nat.toDigits 10 m = Nat.toDigits 10 n := String.ofList_injective h
  rw [← Nat.ofDigitChars_ten_toDigits (n := m), hdigits, Nat.ofDigitChars_ten_toDigits]

/-- Numbers of hashes of one length are different. -/
theorem setBytes_injective {b b' : Bytes} (hlen : b.length = b'.length)
    (h : setBytes b = setBytes b') : b = b' := by
  have hdigits : ∀ b : Bytes, setBytes b = Nat.ofDigits 256 (b.reverse.map (·.toNat)) := by
    intro b
    induction b using List.reverseRecOn with
    | nil => rfl
    | append_singleton b x ih =>
      rw [setBytes, List.foldl_append, List.foldl_cons, List.foldl_nil, ← setBytes, ih,
        List.reverse_append, List.reverse_singleton, List.singleton_append, List.map_cons,
        Nat.ofDigits_cons]
      exact Nat.add_comm _ _
  have hbound : ∀ b : Bytes, ∀ d ∈ b.reverse.map (·.toNat), d < 256 := by
    intro b d hd
    obtain ⟨x, -, rfl⟩ := List.mem_map.mp hd
    exact x.toNat_lt
  rw [hdigits, hdigits] at h
  have heq := Nat.ofDigits_inj_of_len_eq (by decide) (by simpa using hlen) (hbound b) (hbound b') h
  have hrev : b.reverse = b'.reverse :=
    List.map_injective_iff.mpr (fun x y hxy => UInt8.toNat_inj.mp hxy) heq
  exact List.reverse_injective hrev

/-- There is a row for each transaction. -/
theorem emitRows_eq {records : Records} (start : ℕ) {place : Address → ℕ}
    {txs : List Transaction} (hashes : List String)
    (h : ∀ tx ∈ txs, ∃ record, records.lookup tx.nonce = some record ∧
      Finished record tx (place tx.sender) (place tx.recipient))
    (hnd : (txs.map (·.txHash)).Nodup) (hlen : ∀ tx ∈ txs, tx.txHash.length = 32)
    (hnew : ∀ tx ∈ txs, Nat.repr (setBytes tx.txHash) ∉ hashes) :
    emitRows records start (txs.map (·.nonce)) hashes =
      .ok (txs.map (settledRow start place)) := by
  induction txs generalizing hashes with
  | nil => rfl
  | cons tx txs ih =>
    obtain ⟨record, hlookup, hident, horig, hsender, hrelay⟩ := h tx List.mem_cons_self
    obtain ⟨hhash, hids⟩ := Prod.mk.inj hident
    obtain ⟨hs, hr⟩ := Prod.mk.inj hids
    obtain ⟨hfresh, hnd'⟩ := List.nodup_cons.mp hnd
    have hrest := ih (Nat.repr (setBytes tx.txHash) :: hashes)
      (fun t ht => h t (List.mem_cons_of_mem _ ht)) hnd'
      (fun t ht => hlen t (List.mem_cons_of_mem _ ht)) fun t ht => by
        rw [List.mem_cons, not_or]
        refine ⟨fun heq => hfresh ?_, hnew t (List.mem_cons_of_mem _ ht)⟩
        have hsame := (hlen t (List.mem_cons_of_mem _ ht)).trans (hlen tx List.mem_cons_self).symm
        exact List.mem_map.mpr ⟨t, ht, setBytes_injective hsame (decimal_injective heq)⟩
    rw [List.map_cons, List.map_cons, emitRows, hlookup]
    dsimp only
    rw [hhash, if_neg (hnew tx List.mem_cons_self), hrest, hs, hr, hsender, settledRow]
    rcases hrelay with ⟨hab, hzero⟩ | ⟨hab, hone, hrecipient⟩
    · rw [if_neg (by omega), if_neg (by omega), if_pos hzero, if_pos hzero, if_pos hab, ← hab]
    · rw [if_neg (by omega), if_neg (by rw [hrecipient]; omega), if_neg (by omega),
        if_neg (by omega), if_neg hab, hrecipient]

/-- The files of a completed run over so many shards, with so many transactions from some
row of the data set on. -/
structure RunFiles.Completed (run : RunFiles) (shards start size : ℕ) : Prop where
  /-- the run is completed -/
  state : run.state = "completed"
  /-- it is a run over the IoT data set -/
  springIOTMode : run.springIOTMode = 1
  /-- its identities are those of version 2 -/
  springIOTIdentityMode : run.springIOTIdentityMode = 2
  /-- it is a relay run -/
  consensusMethod : run.consensusMethod = 3
  /-- there are shards -/
  shards : run.shards = shards ∧ 0 < shards
  /-- there are nodes -/
  nodes : 0 < run.nodes
  /-- the row where it starts -/
  datasetStartTx : run.datasetStartTx = start
  /-- there are transactions -/
  totalDataSize : run.totalDataSize = size ∧ 0 < size

/-- **One row for each transaction**: where the chains of all shards are stored and hold
each phase of the data set once, in its shard, recovery gives the data set with the shards
of all senders and recipients. -/
theorem recoverRows_eq [DecidableEq H] {run : RunFiles} (cc : ℕ → ChainConfig H)
    {files : ℕ → Storage H} (blocks : ℕ → List (Block H)) (executed : ℕ → List Transaction)
    {place : Address → ℕ} {n start : ℕ} {dataset : List Transaction}
    (hrun : run.Completed n start dataset.length)
    (hnonce : dataset.map (·.nonce) = List.range dataset.length)
    (htx : ∀ tx ∈ dataset, tx.relayed = false ∧ tx.hasBroker = false ∧ tx.txHash.length = 32)
    (hnd : (dataset.map (·.txHash)).Nodup)
    (hstored : ∀ k < n, Stored (cc k) (files k) (blocks k) ∧ blocks k ≠ [])
    (hbody : ∀ k < n, (blocks k).flatMap (·.body) = (executed k).map some)
    (horigin : ∀ k < n, ∀ tx ∈ executed k, ∃ t ∈ dataset, tx = t ∨ tx = t.second)
    (hsettled : ∀ tx ∈ dataset, SettledPhases (·.nonce) (phases (List.range n) executed) tx
      (place tx.sender) (place tx.recipient)) :
    recoverRows run files = .ok (metadataHeader :: dataset.map (settledRow start place)) := by
  have hlt : ∀ tx ∈ dataset, tx.nonce < dataset.length := fun tx h => by
    have hmem := List.mem_map_of_mem (f := (·.nonce)) h
    rw [hnonce] at hmem
    exact List.mem_range.mp hmem
  have hinj : ∀ tx ∈ dataset, ∀ tx' ∈ dataset, tx.nonce = tx'.nonce → tx = tx' :=
    fun tx h tx' h' heq => List.inj_on_of_nodup_map (hnonce ▸ List.nodup_range) h h' heq
  -- each nonce is of one transaction
  let ident : ℕ → Bytes × Address × Address := fun i =>
    ((dataset.find? fun tx => tx.nonce = i).map Transaction.ident).getD ([], "", "")
  have hident : ∀ tx ∈ dataset, ident tx.nonce = tx.ident := by
    intro tx h
    obtain ⟨t, ht⟩ := Option.isSome_iff_exists.mp
      (List.find?_isSome.mpr ⟨tx, h, decide_eq_true rfl⟩ :
        (dataset.find? fun t => t.nonce = tx.nonce).isSome = true)
    have heq : t = tx := hinj t (List.mem_of_find?_eq_some ht) tx h
      (by simpa using List.find?_some ht)
    rw [heq] at ht
    simp only [ident, ht, Option.map_some, Option.getD_some]
  have hcount : ∀ k ∈ List.range n, ∀ tx ∈ executed k,
      Countable ident dataset.length tx := by
    intro k hk tx h
    obtain ⟨t, ht, heq⟩ := horigin k (List.mem_range.mp hk) tx h
    obtain ⟨-, hb, hlen⟩ := htx t ht
    have hne : t.txHash ≠ [] := fun hnil => by rw [hnil] at hlen; cases hlen
    rcases heq with rfl | rfl
    · exact ⟨hne, hb, hlt _ ht, (hident _ ht).symm⟩
    · exact ⟨hne, hb, hlt t ht, (hident t ht).symm⟩
  have hread := readShards_eq ∅ (fun k hk => hstored k (List.mem_range.mp hk))
    (fun k hk => hbody k (List.mem_range.mp hk)) hcount fun i r hr => by
      rw [AList.lookup_empty] at hr
      cases hr
  have hrecord : ∀ tx ∈ dataset, ∃ record,
      (recorded ∅ (phases (List.range n) executed)).lookup tx.nonce = some record ∧
        Finished record tx (place tx.sender) (place tx.recipient) :=
    fun tx h => (hsettled tx h).finished (htx tx h).1
  have hkeys : (recorded ∅ (phases (List.range n) executed)).keys.length = dataset.length := by
    have hperm : (recorded ∅ (phases (List.range n) executed)).keys.Perm
        (List.range dataset.length) := by
      refine (List.perm_ext_iff_of_nodup (AList.keys_nodup _) List.nodup_range).mpr fun i => ?_
      rw [AList.mem_keys.symm.trans Iff.rfl, List.mem_range]
      constructor
      · intro hi
        rcases KeyedUpdates.mem_foldl.mp hi with hi | ⟨⟨k, tx⟩, he, rfl⟩
        · cases hi
        · obtain ⟨hk, h⟩ := mem_phases.mp he
          exact (hcount k hk tx h).nonce
      · intro hi
        have hmem : i ∈ dataset.map (·.nonce) := hnonce ▸ List.mem_range.mpr hi
        obtain ⟨tx, h, rfl⟩ := List.mem_map.mp hmem
        obtain ⟨record, hr, -⟩ := hrecord tx h
        exact AList.lookup_isSome.mp (by rw [hr]; rfl)
    rw [hperm.length_eq, List.length_range]
  have hrows := emitRows_eq start [] hrecord hnd (fun tx h => (htx tx h).2.2) fun _ _ => List.not_mem_nil
  rw [hnonce] at hrows
  obtain ⟨hstate, hmode, hidentity, hmethod, ⟨hshards, hn⟩, hnodes, hstart, hsize, hpos⟩ := hrun
  rw [recoverRows, if_neg (by simp [hstate, hmode, hidentity, hmethod]),
    if_neg (by rw [hshards, hstart, hsize]; omega)]
  dsimp only
  rw [hsize, hshards, hstart, Int.toNat_natCast, Int.toNat_natCast, Int.toNat_natCast, hread]
  dsimp only
  rw [if_neg (not_not.mpr hkeys), hrows]

/-! ## The chains of a run -/

variable [DecidableEq H] {sys : RelaySystem H} {s t : NetState H} {txs : List Transaction}

/-- What a round adds to a chain: a block over what was packed. -/
theorem leaderRound_stored {cc : ChainConfig H} {bc bc' : BlockChain H} {miner seqID : ℕ}
    {now : Time} {relays : List (ℕ × Relay)} {bs : List (Block H)}
    (h : leaderRound cc miner seqID now bc = some (bc', relays))
    (hst : Stored cc bc.storage (bc.currentBlock :: bs))
    (hc : Complete bc.storage (bc.currentBlock :: bs))
    (hinj : Function.Injective cc.hash.headerHash) :
    bc'.currentBlock.body =
        (bc.filterFreshTransactions (bc.packForBlock cc).1).map some ∧
      Stored cc bc'.storage (bc'.currentBlock :: bc.currentBlock :: bs) ∧
      Complete bc'.storage (bc'.currentBlock :: bc.currentBlock :: bs) := by
  rw [leaderRound] at h
  obtain ⟨⟨r, bc₁⟩, hprop, h⟩ := Option.bind_eq_some_iff.mp h
  obtain ⟨⟨b, bc₂⟩, hgen, heq⟩ := Option.map_eq_some_iff.mp hprop
  obtain ⟨rfl, rfl⟩ := Prod.mk.inj heq
  obtain ⟨hbody, -, -, -, -, -, -, -, hbc⟩ := BlockChain.generateBlock_eq_some hgen
  dsimp only at h hbc
  split at h
  · rename_i bc₃ outs hcm
    obtain ⟨rfl, rfl⟩ := Prod.mk.inj (Option.some.inj h)
    obtain ⟨b', bc₄, hb', hadd, ⟨-, hrelay⟩ | ⟨hm, -, -⟩⟩ := RawRelay.handleinCommit_eq_done hcm
    · obtain rfl : b = b' := by simpa using hb'
      obtain ⟨_, _, -, -, rfl, -⟩ := RawRelay.relayBlock_spec hrelay
      have hst₁ : Stored cc bc₂.storage (bc₂.currentBlock :: bs) := by
        rw [hbc]
        exact hst
      have hc₁ : Complete bc₂.storage (bc₂.currentBlock :: bs) := by
        rw [hbc]
        exact hc
      have hadded := Stored.addBlock hinj hst₁ hc₁ hadd
      have hcur : bc₂.currentBlock = bc.currentBlock := by rw [hbc]
      obtain ⟨b', storage, hb', -, -, rfl⟩ := BlockChain.addBlock_eq_ok hadd
      obtain rfl := Option.some.inj hb'
      rw [hcur] at hadded
      exact ⟨hbody, hadded⟩
    · cases hm
  · cases h

/-- The chains of all shards, with what they have executed. -/
structure Archived (sys : RelaySystem H) (s : NetState H) (txs : List Transaction)
    (blocks : ℕ → List (Block H)) (executed : ℕ → List Transaction) : Prop where
  /-- they are stored under their newest blocks -/
  stored : ∀ k, ∃ bs, blocks k = (s.chains k).currentBlock :: bs ∧
    Stored (sys.cc k) (s.chains k).storage (blocks k) ∧ Complete (s.chains k).storage (blocks k)
  /-- their transactions -/
  body : ∀ k, (blocks k).flatMap (·.body) = (executed k).map some
  /-- first phases are in the homes of senders, second phases in other homes -/
  origin : ∀ k, ∀ tx ∈ executed k, (tx ∈ txs ∧ sys.place tx.sender = k) ∨
    ∃ t ∈ txs, tx = t.second ∧ sys.place t.recipient = k ∧ sys.place t.sender ≠ k

namespace Archived

variable {blocks : ℕ → List (Block H)} {executed : ℕ → List Transaction}

theorem start : Archived sys (NetState.start sys) []
    (fun k => [BlockChain.newGenisisBlock (sys.cc k)]) fun _ => [] where
  stored k := by
    refine ⟨[], rfl, ⟨fun h b => ?_, ?_, rfl, rfl, List.nodup_nil, ?_, ?_⟩, ?_⟩
    · have hget : (NetState.start sys |>.chains k).storage.getBlock h =
          (AList.insert (BlockChain.newGenisisBlock (sys.cc k)).hash
            (BlockChain.newGenisisBlock (sys.cc k)) ∅ : AList fun _ : H => Block H).lookup h := rfl
      rw [hget, List.mem_singleton]
      by_cases hh : h = (BlockChain.newGenisisBlock (sys.cc k)).hash
      · subst hh
        rw [AList.lookup_insert, Option.some.injEq]
        exact ⟨fun hb => ⟨hb.symm, hb ▸ rfl⟩, fun hb => hb.1.symm⟩
      · rw [AList.lookup_insert_ne hh, AList.lookup_empty]
        refine iff_of_false nofun ?_
        rintro ⟨rfl, rfl⟩
        exact hh rfl
    · intro b hb
      rw [List.mem_singleton.mp hb]
      rfl
    · intro b hb
      rw [List.mem_singleton.mp hb]
      exact List.not_mem_nil
    · exact nofun
    · intro b hb t ht
      rw [List.mem_singleton.mp hb] at ht
      cases ht
  body _ := rfl
  origin _ _ h := absurd h List.not_mem_nil

omit [DecidableEq H] in
/-- Chains do not change when transactions arrive. -/
theorem received [DecidableEq H] (h : Archived sys s txs blocks executed) {k : ℕ}
    {new arrived : List Transaction} {fl : List (ℕ × Relay)} {u : Finset Bytes} :
    Archived sys ⟨Function.update s.chains k ((s.chains k).received arrived), fl, u⟩
      (txs ++ new) blocks executed := by
  refine ⟨fun i => ?_, h.body, fun i tx htx => ?_⟩
  · dsimp only
    rcases eq_or_ne i k with rfl | hi
    · rw [Function.update_self]
      exact h.stored i
    · rw [Function.update_of_ne hi]
      exact h.stored i
  · rcases h.origin i tx htx with ⟨hmem, hplace⟩ | ⟨t, ht, hrest⟩
    · exact .inl ⟨List.mem_append_left _ hmem, hplace⟩
    · exact .inr ⟨t, List.mem_append_left _ ht, hrest⟩

/-- A block is put on top. -/
theorem commit (hinj : Function.Injective sys.chainConfig.hash.headerHash)
    (h : Archived sys s txs blocks executed) (hs : Settling sys s txs) {sid miner seqID : ℕ}
    {now : Time} (hstep : s.step sys (.commit sid miner seqID now) = some t)
    {packed rest : List Transaction} (hc : Committed sys s t sid seqID packed rest) :
    Archived sys t txs
      (Function.update blocks sid ((t.chains sid).currentBlock :: blocks sid))
      (Function.update executed sid (packed ++ executed sid)) := by
  obtain ⟨bs, hblocks, hst, hcomplete⟩ := h.stored sid
  rw [hblocks] at hst hcomplete
  rw [NetState.step, if_pos hc.shard] at hstep
  obtain ⟨⟨bc, relays⟩, hround, rfl⟩ := Option.map_eq_some_iff.mp hstep
  obtain ⟨hbody, hst', hcomplete'⟩ := leaderRound_stored hround hst hcomplete hinj
  rw [hc.filtered] at hbody
  have htop : (Function.update s.chains sid bc sid).currentBlock = bc.currentBlock := by
    rw [Function.update_self]
  dsimp only
  rw [htop]
  refine ⟨fun k => ?_, fun k => ?_, fun k tx htx => ?_⟩
  · dsimp only
    rcases eq_or_ne k sid with rfl | hk
    · rw [Function.update_self, Function.update_self]
      refine ⟨_, rfl, ?_⟩
      rw [hblocks]
      exact ⟨hst', hcomplete'⟩
    · rw [Function.update_of_ne hk, Function.update_of_ne hk]
      exact h.stored k
  · rcases eq_or_ne k sid with rfl | hk
    · rw [Function.update_self, Function.update_self, List.flatMap_cons, hbody, h.body,
        List.map_append]
    · rw [Function.update_of_ne hk, Function.update_of_ne hk]
      exact h.body k
  · rcases eq_or_ne k sid with rfl | hk
    · rw [Function.update_self] at htx
      rcases List.mem_append.mp htx with htx | htx
      · have hpool := hc.mem_pooled_of_mem_packed htx
        have hplaced := (hs.sound.pooled k hc.shard tx hpool).2
        obtain ⟨t, ht, rfl | rfl⟩ := hs.pooled k hc.shard tx hpool
        · exact .inl ⟨ht, hplaced.1 (hs.injected _ ht).2.1⟩
        · have hplace := hplaced.2 rfl
          have harr := hs.arrived_of_pooled ht hc.shard hpool
          exact .inr ⟨t, ht, rfl, hplace, fun heq => harr.1 (hplace.trans heq.symm)⟩
      · exact h.origin k tx htx
    · rw [Function.update_of_ne hk] at htx
      exact h.origin k tx htx

/-- **The chains of a run are stored whole**, after every step. -/
theorem step (hinj : Function.Injective sys.chainConfig.hash.headerHash)
    (h : Archived sys s txs blocks executed) (hs : Settling sys s txs) {a : NetAction}
    (hstep : s.step sys a = some t) :
    ∃ blocks executed, Archived sys t (txs ++ a.injected) blocks executed := by
  cases a with
  | inject sid new =>
    obtain ⟨-, rfl⟩ := NetState.step_inject hstep
    exact ⟨blocks, executed, h.received⟩
  | deliver k =>
    obtain ⟨e, -, rfl⟩ := NetState.step_deliver hstep
    exact ⟨blocks, executed, h.received⟩
  | commit sid miner seqID now =>
    have hnil : txs ++ (NetAction.commit sid miner seqID now).injected = txs := List.append_nil txs
    obtain ⟨packed, rest, hc⟩ := hs.sound.committed hstep
    rw [hnil]
    exact ⟨_, _, h.commit hinj hs hstep hc⟩

/-- What is executed in a shard is in its index. -/
theorem executed_iff (h : Archived sys s txs blocks executed) {k : ℕ} {tx : Transaction} :
    s.Executed tx k ↔ ∃ tx' ∈ executed k, tx'.txHash = tx.txHash := by
  obtain ⟨bs, -, hst, hc⟩ := h.stored k
  have hmem : ∀ b : Bytes, (∃ block ∈ blocks k, b ∈ txHashes block.body) ↔
      ∃ tx' ∈ executed k, tx'.txHash = b := by
    intro b
    have hall : (blocks k).flatMap (fun block => txHashes block.body) =
        (executed k).map (·.txHash) := by
      rw [← txHashes_map_some, ← h.body k]
      simp only [txHashes, List.filterMap_flatMap]
    rw [← List.mem_flatMap, hall, List.mem_map]
  rw [← hmem]
  constructor
  · exact fun hex => hst.indexed _ hex
  · rintro ⟨block, hblock, hb⟩
    exact hc block hblock _ hb

/-- No transaction is executed twice in a shard. -/
theorem executed_nodup (h : Archived sys s txs blocks executed) (k : ℕ) : (executed k).Nodup := by
  obtain ⟨bs, -, hst, -⟩ := h.stored k
  have hall : (blocks k).flatMap (fun block => txHashes block.body) =
      (executed k).map (·.txHash) := by
    rw [← txHashes_map_some, ← h.body k]
    simp only [txHashes, List.filterMap_flatMap]
  exact List.Nodup.of_map _ (hall ▸ hst.nodup)

/-- **What is done was executed where it should**, once. -/
theorem settled {κ : Type} [DecidableEq κ] (key : Transaction → κ)
    (hsecond : ∀ tx, key tx.second = key tx)
    (h : Archived sys s txs blocks executed) (hs : Settling sys s txs)
    (hkey : (txs.map key).Nodup) {tx : Transaction} (htx : tx ∈ txs)
    (hdone : s.At sys tx .done) :
    SettledPhases key (phases (List.range sys.shardNums) executed) tx (sys.place tx.sender)
      (sys.place tx.recipient) := by
  obtain ⟨hreg, hrel, hsender⟩ := hs.injected tx htx
  -- a phase with this key, or with this hash, is one of this transaction
  have hphase : ∀ k, ∀ tx' ∈ executed k, key tx' = key tx ∨ tx'.txHash = tx.txHash →
      (tx' = tx ∧ k = sys.place tx.sender) ∨
        (tx' = tx.second ∧ k = sys.place tx.recipient ∧ sys.place tx.sender ≠ k) := by
    intro k tx' h' hsame
    have hone : ∀ t ∈ txs, key t = key tx ∨ t.txHash = tx.txHash → t = tx := by
      rintro t ht (heq | heq)
      · exact List.inj_on_of_nodup_map hkey ht htx heq
      · exact hs.eq_of_txHash ht htx heq
    rcases h.origin k tx' h' with ⟨hmem, hplace⟩ | ⟨t, ht, rfl, hplace, hne⟩
    · obtain rfl := hone tx' hmem hsame
      exact .inl ⟨rfl, hplace.symm⟩
    · obtain rfl := hone t ht (by rwa [hsecond] at hsame)
      exact .inr ⟨rfl, hplace.symm, hne⟩
  have hfirst : tx ∈ executed (sys.place tx.sender) := by
    obtain ⟨tx', h', heq⟩ := h.executed_iff.mp ((hdone _).mpr (.inl rfl))
    rcases hphase _ tx' h' (.inr heq) with ⟨rfl, -⟩ | ⟨-, -, hne⟩
    · exact h'
    · exact absurd rfl hne
  have hother : sys.place tx.sender ≠ sys.place tx.recipient →
      tx.second ∈ executed (sys.place tx.recipient) := by
    intro hne
    obtain ⟨tx', h', heq⟩ := h.executed_iff.mp ((hdone _).mpr (.inr rfl))
    rcases hphase _ tx' h' (.inr heq) with ⟨-, hk⟩ | ⟨rfl, -, -⟩
    · exact absurd hk.symm hne
    · exact h'
  have hnd : (phases (List.range sys.shardNums) executed).Nodup := by
    refine List.nodup_flatMap.mpr ⟨fun k _ => ?_, ?_⟩
    · exact (h.executed_nodup k).map fun x y hxy => (Prod.mk.inj hxy).2
    · refine List.nodup_range.imp fun hne => ?_
      rw [Function.onFun, List.disjoint_left]
      rintro ⟨i, x⟩ hi hj
      obtain ⟨_, -, heq⟩ := List.mem_map.mp hi
      obtain ⟨_, -, heq'⟩ := List.mem_map.mp hj
      exact hne ((Prod.mk.inj heq).1.trans (Prod.mk.inj heq').1.symm)
  have hmem : ∀ k tx', (k, tx') ∈ (phases (List.range sys.shardNums) executed).filter
      (fun e => key e.2 = key tx) ↔ (k < sys.shardNums ∧ tx' ∈ executed k) ∧
        key tx' = key tx := by
    intro k tx'
    rw [List.mem_filter, mem_phases, List.mem_range, decide_eq_true_iff]
  rw [SettledPhases]
  split
  · rename_i hab
    refine (List.perm_ext_iff_of_nodup (hnd.filter _) (List.nodup_singleton _)).mpr ?_
    rintro ⟨k, tx'⟩
    rw [hmem, List.mem_singleton, Prod.mk.injEq]
    constructor
    · rintro ⟨⟨-, h'⟩, heq⟩
      rcases hphase k tx' h' (.inl heq) with ⟨rfl, hk⟩ | ⟨-, hk, hne⟩
      · exact ⟨hk, rfl⟩
      · exact absurd (hab.trans hk.symm) hne
    · rintro ⟨rfl, rfl⟩
      exact ⟨⟨hsender, hfirst⟩, rfl⟩
  · rename_i hab
    refine (List.perm_ext_iff_of_nodup (hnd.filter _) ?_).mpr ?_
    · refine List.nodup_cons.mpr ⟨fun hin => ?_, List.nodup_singleton _⟩
      exact hab (Prod.mk.inj (List.mem_singleton.mp hin)).1
    · rintro ⟨k, tx'⟩
      rw [hmem, List.mem_cons, List.mem_singleton, Prod.mk.injEq, Prod.mk.injEq]
      constructor
      · rintro ⟨⟨-, h'⟩, heq⟩
        rcases hphase k tx' h' (.inl heq) with ⟨rfl, hk⟩ | ⟨rfl, hk, -⟩
        · exact .inl ⟨hk, rfl⟩
        · exact .inr ⟨hk, rfl⟩
      · rintro (⟨rfl, rfl⟩ | ⟨rfl, rfl⟩)
        · exact ⟨⟨hsender, hfirst⟩, rfl⟩
        · exact ⟨⟨hreg.home, hother hab⟩, hsecond _⟩

/-- What was executed at rest gives back the data set. -/
theorem recoverRows (h : Archived sys s txs blocks executed) (hs : Settling sys s txs)
    (hrest : s.AtRest sys) {dataset : List Transaction} (hdata : dataset.Perm txs)
    (hnonce : dataset.map (·.nonce) = List.range dataset.length)
    (hlen : ∀ tx ∈ dataset, tx.txHash.length = 32) {run : RunFiles} {start : ℕ}
    (hfiles : run.Completed sys.shardNums start dataset.length) :
    BlockEmulator.recoverRows run (fun k => (s.chains k).storage) =
      .ok (metadataHeader :: dataset.map (settledRow start sys.place)) := by
  have hnd : (txs.map (·.nonce)).Nodup := (hdata.map _).nodup_iff.mp (hnonce ▸ List.nodup_range)
  refine recoverRows_eq sys.cc blocks executed hfiles hnonce
    (fun tx htx => ?_) ?_ (fun k _ => ?_) (fun k _ => h.body k) (fun k _ tx htx => ?_)
    fun tx htx => ?_
  · obtain ⟨hreg, hrel, -⟩ := hs.injected tx (hdata.mem_iff.mp htx)
    exact ⟨hrel, hreg.hasBroker, hlen tx htx⟩
  · exact (hdata.map _).nodup_iff.mpr hs.distinct
  · obtain ⟨bs, heq, hst, -⟩ := h.stored k
    exact ⟨hst, heq ▸ List.cons_ne_nil _ _⟩
  · rcases h.origin k tx htx with ⟨hmem, -⟩ | ⟨t, ht, heq, -⟩
    · exact ⟨tx, hdata.mem_iff.mpr hmem, .inl rfl⟩
    · exact ⟨t, hdata.mem_iff.mpr ht, .inr heq⟩
  · have hmem := hdata.mem_iff.mp htx
    exact h.settled (·.nonce) (fun _ => rfl) hs hnd hmem (hs.done_of_atRest hrest hmem)

end Archived

/-- **Recovery succeeds on every finished run**: whatever the order of injections, blocks
and messages, once relay shards are at rest after the transactions of a data set were
injected in any batches, the chains of the shards give back the data set, with the homes
of all senders and recipients. -/
theorem recoverRows_finished (sys : RelaySystem H)
    (hinj : Function.Injective sys.chainConfig.hash.headerHash) (as : List NetAction)
    (s : NetState H)
    (hrun : runWith (NetState.step sys) (fun _ _ => True) (NetState.start sys) as = some s)
    (hrest : s.AtRest sys) (dataset : List Transaction)
    (hdata : dataset.Perm (as.flatMap NetAction.injected))
    (hnonce : dataset.map (·.nonce) = List.range dataset.length)
    (hlen : ∀ tx ∈ dataset, tx.txHash.length = 32) (run : RunFiles) (start : ℕ)
    (hfiles : run.Completed sys.shardNums start dataset.length) :
    recoverRows run (fun k => (s.chains k).storage) =
      .ok (metadataHeader :: dataset.map (settledRow start sys.place)) := by
  obtain ⟨hs, blocks, executed, harch⟩ := Settling.start.run_keeps
    (P := fun s txs => ∃ blocks executed, Archived sys s txs blocks executed)
    (fun _ _ _ _ hs ⟨_, _, h⟩ hstep => h.step hinj hs hstep) ⟨_, _, Archived.start⟩ hrun
  rw [List.nil_append] at hs harch
  exact harch.recoverRows hs hrest hdata hnonce hlen hfiles

/-- A payment from shard to shard with a hash of full length. -/
def longHashed : Transaction := { crossTransaction with txHash := List.replicate 32 1 }

/-- Recovery after its whole run. -/
theorem recoverRows_finished_cross :
    ∃ s, runWith (NetState.step twoShards) (fun _ _ => True) (NetState.start twoShards)
        (crossRun longHashed ++ [.deliver 0]) = some s ∧
      recoverRows ⟨1, 2, 3, 7, 1, 2, 4, "completed"⟩ (fun k => (s.chains k).storage) =
        .ok [metadataHeader, settledRow 7 twoShards.place longHashed] := by
  obtain ⟨s, hs, hrest⟩ := (Option.any_eq_true _ _).mp
    (show (runWith (NetState.step twoShards) (fun _ _ => True) (NetState.start twoShards)
      (crossRun longHashed ++ [.deliver 0])).any (fun s => decide (s.AtRest twoShards)) =
        true by decide +kernel)
  exact ⟨s, hs, recoverRows_finished twoShards freeHash_injective _ s hs (of_decide_eq_true hrest)
    [longHashed] (List.Perm.refl _) rfl (by decide) _ 7
    ⟨rfl, rfl, rfl, rfl, ⟨rfl, by decide⟩, by decide, rfl, rfl, by decide⟩⟩

end BlockEmulator
