import BlockEmulator.BrokerNet
import BlockEmulator.ClpaBrokerCommittee

/-!
# How often broker transactions are made

A committee with brokers gets batches of raw transactions, block informations of any content
and in any order, and, where it makes partitions, transactions back that a partition has torn
apart. For every raw transaction that crosses shards it makes a first transaction, and a
second one each time a block information lists the first.

* `BrokerHistory.Made` — every first transaction is made and noted once, and the second ones
  are as many as the listings. Every step keeps it (`Made.step`).
* `broker_at_most_once_iff` — **at most one of each**, exactly where no first transaction is
  listed twice.
-/

namespace BlockEmulator

open StepSystem Partition BrokerCommitteeMod

/-! ## Committees -/

/-- `CommitteeModule`, of the two committees with brokers. -/
inductive BrokerCommittee (F : Type) where
  /-- `BrokerCommitteeMod` -/
  | broker (bcm : BrokerCommitteeMod)
  /-- `CLPACommitteeMod_Broker` -/
  | clpaBroker (ccm : CLPACommitteeModBroker F)

/-- Which of them. -/
inductive BrokerKind where
  /-- by address -/
  | broker
  /-- by partitions -/
  | clpaBroker

namespace BrokerCommittee

variable {F H : Type} (fl : FloatOps F) (p : BrokerParams H)

/-- A new committee. -/
def new (brokerAddress : List Address) : BrokerKind → BrokerCommittee F
  | .broker => .broker (.new brokerAddress)
  | .clpaBroker => .clpaBroker (.new fl p brokerAddress)

/-- The brokers and the confirmations. -/
def state : BrokerCommittee F → BrokerCommitteeMod
  | .broker bcm => bcm
  | .clpaBroker ccm => ccm.toBroker

/-- The routes. -/
def routes : BrokerCommittee F → BrokerRoutes
  | .broker _ => p.routes
  | .clpaBroker ccm => ccm.routes p

/-- A batch in the loop of `MsgSendingControl`. -/
def handleBatch (txs : List Transaction) (hashes : List Bytes) :
    BrokerCommittee F → Option (BrokerCommittee F × List (ℕ × List Transaction))
  | .broker bcm => (bcm.handleBatch p txs hashes).map fun s => (.broker s.1, s.2)
  | .clpaBroker ccm => (ccm.handleBatch p txs hashes).map fun s => (.clpaBroker s.1, s.2)

/-- `HandleBlockInfo`. -/
def handleBlockInfo (b : BrokerInfoMsg) (hashes : List Bytes) :
    BrokerCommittee F → Option (BrokerCommittee F × List (ℕ × List Transaction))
  | .broker bcm => (bcm.handleBlockInfo p b hashes).map fun s => (.broker s.1, s.2)
  | .clpaBroker ccm => (ccm.handleBlockInfo p b hashes).map fun s => (.clpaBroker s.1, s.2)

/-- `HandleOtherMessage`, which the broker committee leaves empty. -/
def handleOtherMessage (txs : List Transaction) (hashes : List Bytes) :
    BrokerCommittee F → Option (BrokerCommittee F × List (ℕ × List Transaction))
  | .broker bcm => some (.broker bcm, [])
  | .clpaBroker ccm => (ccm.handleOtherMessage p txs hashes).map fun s => (.clpaBroker s.1, s.2)

/-- A partition, where there are partitions. -/
def repartition (orders : ℕ → List Vertex) : BrokerCommittee F → Option (BrokerCommittee F)
  | .broker _ => none
  | .clpaBroker ccm => (ccm.repartition fl p orders).map fun s => .clpaBroker s.1

/-- What is true of every state. -/
def Sound : BrokerCommittee F → Prop
  | .broker _ => True
  | .clpaBroker ccm => ccm.ClpaSound p

variable {p} {c c' : BrokerCommittee F}

theorem sound_new (fl : FloatOps F) (brokerAddress : List Address) (kind : BrokerKind) :
    (new fl p brokerAddress kind).Sound p := by
  cases kind with
  | broker => trivial
  | clpaBroker => exact .start fl p brokerAddress

theorem Sound.inRange (hpos : 0 < p.shardNum) (h : c.Sound p) : (c.routes p).InRange := by
  cases c with
  | broker bcm => exact BrokerCommitteeMod.routes_inRange hpos
  | clpaBroker ccm => exact CLPACommitteeModBroker.ClpaSound.inRange hpos h

/-- **A batch** is handled over the routes. -/
theorem Sound.handleBatch (h : c.Sound p) {txs : List Transaction} {hashes : List Bytes}
    {sent : List (ℕ × List Transaction)} (hstep : c.handleBatch p txs hashes = some (c', sent)) :
    c'.Sound p ∧ (c.routes p).handleBatch c.state txs hashes = some (c'.state, sent) := by
  cases c with
  | broker bcm =>
    obtain ⟨⟨bcm', sent'⟩, hbatch, heq⟩ := Option.map_eq_some_iff.mp hstep
    obtain ⟨rfl, rfl⟩ := Prod.mk.inj heq
    rw [BrokerCommitteeMod.handleBatch_eq] at hbatch
    exact ⟨trivial, hbatch⟩
  | clpaBroker ccm =>
    obtain ⟨⟨ccm', sent'⟩, hbatch, heq⟩ := Option.map_eq_some_iff.mp hstep
    obtain ⟨rfl, rfl⟩ := Prod.mk.inj heq
    rw [CLPACommitteeModBroker.handleBatch_eq] at hbatch
    obtain ⟨⟨bcm', sent'⟩, hdone, heq⟩ := Option.map_eq_some_iff.mp hbatch
    obtain ⟨rfl, rfl⟩ := Prod.mk.inj heq
    exact ⟨CLPACommitteeModBroker.ClpaSound.toBroker h bcm', hdone⟩

/-- **A block information** lists transactions, and they are confirmed over the routes. -/
theorem Sound.handleBlockInfo (h : c.Sound p) {b : BrokerInfoMsg} {hashes : List Bytes}
    {sent : List (ℕ × List Transaction)}
    (hstep : c.handleBlockInfo p b hashes = some (c', sent)) :
    c'.Sound p ∧ (b.blockBodyLength = 0 ∧ c'.state = c.state ∧ sent = [] ∨
      b.blockBodyLength ≠ 0 ∧
        (c.routes p).createConfirm c.state (b.broker1Txs ++ b.broker2Txs) hashes =
          some (c'.state, sent)) := by
  cases c with
  | broker bcm =>
    obtain ⟨⟨bcm', sent'⟩, hinfo, heq⟩ := Option.map_eq_some_iff.mp hstep
    obtain ⟨rfl, rfl⟩ := Prod.mk.inj heq
    rw [BrokerCommitteeMod.handleBlockInfo_eq] at hinfo
    refine ⟨trivial, ?_⟩
    split at hinfo
    · rename_i hempty
      obtain ⟨rfl, rfl⟩ := Prod.mk.inj (Option.some.inj hinfo)
      exact .inl ⟨hempty, rfl, rfl⟩
    · rename_i hbody
      exact .inr ⟨hbody, hinfo⟩
  | clpaBroker ccm =>
    obtain ⟨⟨ccm', sent'⟩, hinfo, heq⟩ := Option.map_eq_some_iff.mp hstep
    obtain ⟨rfl, rfl⟩ := Prod.mk.inj heq
    refine ⟨CLPACommitteeModBroker.ClpaSound.handleBlockInfo h hinfo, ?_⟩
    obtain ⟨-, ⟨hempty, hstate, hsent, -⟩ | ⟨hbody, hconfirm, -⟩⟩ :=
      CLPACommitteeModBroker.handleBlockInfo_eq_some hinfo
    · exact .inl ⟨hempty, hstate, hsent⟩
    · exact .inr ⟨hbody, hconfirm⟩

/-- **Transactions that come back** are handled as a batch, or not at all. -/
theorem Sound.handleOtherMessage (h : c.Sound p) {txs : List Transaction} {hashes : List Bytes}
    {sent : List (ℕ × List Transaction)}
    (hstep : c.handleOtherMessage p txs hashes = some (c', sent)) :
    c' = c ∧ sent = [] ∨
      c'.Sound p ∧ (c.routes p).handleBatch c.state txs hashes = some (c'.state, sent) := by
  cases c with
  | broker bcm =>
    obtain ⟨rfl, rfl⟩ := Prod.mk.inj (Option.some.inj hstep)
    exact .inl ⟨rfl, rfl⟩
  | clpaBroker ccm => exact .inr (h.handleBatch hstep)

/-- A partition changes the routes only. -/
theorem Sound.repartition {fl} (h : c.Sound p) {orders : ℕ → List Vertex}
    (hstep : c.repartition fl p orders = some c') : c'.Sound p ∧ c'.state = c.state := by
  cases c with
  | broker bcm => cases hstep
  | clpaBroker ccm =>
    obtain ⟨⟨ccm', sent'⟩, hpart, rfl⟩ := Option.map_eq_some_iff.mp hstep
    refine ⟨CLPACommitteeModBroker.ClpaSound.repartition h hpart, ?_⟩
    obtain ⟨r, -, heq⟩ := Option.map_eq_some_iff.mp hpart
    obtain ⟨rfl, -⟩ := Prod.mk.inj heq
    rfl

end BrokerCommittee

/-! ## Histories -/

/-- A committee, with what it has sent. -/
structure BrokerHistory (F : Type) where
  /-- the committee -/
  committee : BrokerCommittee F
  /-- the transactions that were sent -/
  sent : List Transaction
  /-- those that were sent as they are, and have not come back -/
  plain : Multiset Transaction
  /-- the hashes that were used -/
  used : Finset Bytes
  /-- how often block informations with a body have listed a hash, since a first
  transaction was made with it -/
  listed : Bytes → ℕ

/-- What can happen. -/
inductive BrokerEvent where
  /-- a batch of raw transactions, with the hashes of the transactions that are made -/
  | batch (txs : List Transaction) (hashes : List Bytes)
  /-- transactions that were sent as they are come back -/
  | innerTx2CrossTx (txs : List Transaction) (hashes : List Bytes)
  /-- a block information, of any content -/
  | blockInfo (b : BrokerInfoMsg) (hashes : List Bytes)
  /-- a partition -/
  | repartition (orders : ℕ → List Vertex)

namespace BrokerHistory

variable {F H : Type} (fl : FloatOps F) (p : BrokerParams H)

/-- A history begins. -/
def start (committee : BrokerCommittee F) : BrokerHistory F := ⟨committee, [], 0, ∅, fun _ => 0⟩

variable (s : BrokerHistory F)

/-- The brokers and the confirmations. -/
abbrev state : BrokerCommitteeMod := s.committee.state

/-- The raw messages that were handled. -/
abbrev raws : Finset BrokerRawMeg := s.state.broker.brokerRawMegs

/-- Hashes of new transactions: they are distinct, and none was used. -/
def NewHashes (hashes : List Bytes) : Prop := hashes.Nodup ∧ ∀ h ∈ hashes, h ≠ [] ∧ h ∉ s.used

instance (hashes : List Bytes) : Decidable (s.NewHashes hashes) :=
  inferInstanceAs (Decidable (_ ∧ _))

/-- The transactions of some Inject messages that were not made for others. -/
def plainOf (msgs : List (ℕ × List Transaction)) : Multiset Transaction :=
  ((msgs.flatMap (·.2)).filter fun tx => tx.rawTxHash = [] : List Transaction)

/-- Inject messages are sent. -/
def send (r : BrokerCommittee F × List (ℕ × List Transaction)) (hashes : List Bytes) :
    BrokerHistory F :=
  { s with
    committee := r.1
    sent := s.sent ++ r.2.flatMap (·.2)
    plain := s.plain + plainOf r.2
    used := s.used ∪ hashes.toFinset }

/-- How often a block information lists a hash of a first transaction. -/
def listing (b : BrokerInfoMsg) (h : Bytes) : ℕ :=
  if b.blockBodyLength = 0 ∨ s.state.brokerConfirm1Pool h = none then 0
  else (b.broker1Txs ++ b.broker2Txs).countP fun tx => tx.txHash = h

/-- One step. Raw transactions come with new hashes, once; what comes back was sent. -/
def step : BrokerEvent → Option (BrokerHistory F)
  | .batch txs hashes =>
    if s.NewHashes (txs.map (·.txHash) ++ hashes) ∧ ∀ tx ∈ txs, tx.rawTxHash = [] then
      (s.committee.handleBatch p txs hashes).map (s.send · (txs.map (·.txHash) ++ hashes))
    else none
  | .innerTx2CrossTx txs hashes =>
    if s.NewHashes hashes ∧ (txs : Multiset Transaction) ≤ s.plain then
      (s.committee.handleOtherMessage p txs hashes).map
        ({ s with plain := s.plain - txs }.send · hashes)
    else none
  | .blockInfo b hashes =>
    if s.NewHashes hashes then
      (s.committee.handleBlockInfo p b hashes).map fun r =>
        { s.send r hashes with listed := fun h => s.listed h + s.listing b h }
    else none
  | .repartition orders =>
    (s.committee.repartition fl p orders).map fun c => { s with committee := c }

/-- **At most one** first and one second transaction for each raw transaction. -/
def AtMostOnce : Prop := ∀ m ∈ s.raws, s.sent.countP m.First ≤ 1 ∧ s.sent.countP m.Second ≤ 1

instance : Decidable s.AtMostOnce :=
  inferInstanceAs (Decidable (∀ m ∈ s.raws, _))

/-! ## What every step keeps -/

/-- What was made for which raw message. -/
structure Made (brokerAddress : List Address) (s : BrokerHistory F) : Prop where
  /-- accounts are in shards that exist -/
  sound : s.committee.Sound p
  /-- the brokers -/
  brokers : s.state.broker.brokerAddress = brokerAddress
  /-- the hash of a raw message is used -/
  raw : ∀ m ∈ s.raws, m.tx.txHash ≠ [] ∧ m.tx.txHash ∈ s.used
  /-- it goes through the first broker, from somebody else -/
  broker : ∀ m ∈ s.raws, m.tx.sender ∉ brokerAddress ∧
    brokerAddress.head? = some m.broker
  /-- no two raw messages have the same hash -/
  rawHash : ∀ m ∈ s.raws, ∀ m' ∈ s.raws, m.tx.txHash = m'.tx.txHash → m = m'
  /-- what was made, was made for a raw message -/
  kind : ∀ tx ∈ s.sent, tx.rawTxHash ≠ [] → ∃ m ∈ s.raws, m.tx.txHash = tx.rawTxHash
  /-- what was sent as it is, is no raw message -/
  plain : ∀ tx ∈ s.plain, tx.rawTxHash = [] ∧ tx.txHash ≠ [] ∧ tx.txHash ∈ s.used ∧
    ∀ m ∈ s.raws, m.tx.txHash ≠ tx.txHash
  /-- no two of them have the same hash -/
  plainHash : (s.plain.map (·.txHash)).Nodup
  /-- there is one first transaction -/
  first : ∀ m ∈ s.raws, s.sent.countP m.First = 1
  /-- it is noted -/
  noted : ∀ m ∈ s.raws, ∃ h, s.state.brokerConfirm1Pool h = some ⟨h, m⟩
  /-- nothing else is, and there is a second transaction for every listing -/
  confirm : ∀ h c, s.state.brokerConfirm1Pool h = some c →
    c.rawMeg ∈ s.raws ∧ h ∈ s.used ∧ s.sent.countP c.rawMeg.Second = s.listed h
  /-- a raw message is noted once -/
  once : ∀ h h' c c', s.state.brokerConfirm1Pool h = some c →
    s.state.brokerConfirm1Pool h' = some c' → c.rawMeg = c'.rawMeg → h = h'
  /-- other listings do not count -/
  unlisted : ∀ h, s.state.brokerConfirm1Pool h = none → s.listed h = 0

variable {fl} {p} {s} {t : BrokerHistory F} {brokerAddress : List Address}

theorem Made.start (kind : BrokerKind) :
    Made p brokerAddress (.start (.new fl p brokerAddress kind)) := by
  have hnew : (BrokerCommittee.new fl p brokerAddress kind).state = .new brokerAddress := by
    cases kind with
    | broker => rfl
    | clpaBroker => rfl
  have hraws : (BrokerHistory.start (.new fl p brokerAddress kind)).raws = ∅ := by
    rw [raws, BrokerHistory.state, BrokerHistory.start, hnew]
    rfl
  have hpool : ∀ h, (BrokerHistory.start (.new fl p brokerAddress kind)).state.brokerConfirm1Pool h =
      none := by
    intro h
    rw [BrokerHistory.state, BrokerHistory.start, hnew]
    rfl
  have hnone : ∀ m, m ∉ (BrokerHistory.start (.new fl p brokerAddress kind)).raws := by
    intro m
    rw [hraws]
    exact Finset.notMem_empty m
  refine ⟨BrokerCommittee.sound_new fl brokerAddress kind, ?_, fun m hm => absurd hm (hnone m),
    fun m hm => absurd hm (hnone m), fun m hm => absurd hm (hnone m), nofun, nofun,
    List.nodup_nil, fun m hm => absurd hm (hnone m), fun m hm => absurd hm (hnone m),
    fun h c hc => ?_, fun h h' c c' hc => ?_, fun _ _ => rfl⟩
  · rw [BrokerHistory.state, BrokerHistory.start, hnew]
    rfl
  · rw [hpool h] at hc
    cases hc
  · rw [hpool h] at hc
    cases hc

/-- A first transaction is no second one. -/
theorem Made.first_not_second (hs : Made p brokerAddress s) {m m' : BrokerRawMeg}
    (hm : m.tx.sender ∉ brokerAddress) (hm' : m' ∈ s.raws) {tx : Transaction} (h : m.First tx) :
    ¬ m'.Second tx := by
  intro h'
  apply hm
  rw [← h.sender, h'.sender]
  exact List.mem_of_head? (hs.broker m' hm').2

/-- A transaction that was not made for another one is neither. -/
theorem Made.plain_not (hs : Made p brokerAddress s) {m : BrokerRawMeg} (hm : m ∈ s.raws)
    {tx : Transaction} (htx : tx.rawTxHash = []) : ¬ m.First tx ∧ ¬ m.Second tx := by
  have hne := (hs.raw m hm).1
  rw [← not_or]
  rintro (h | h)
  · exact hne (h.rawTxHash ▸ htx)
  · exact hne (h.rawTxHash ▸ htx)

/-- What a step does that deals with no transactions: second ones are made. -/
structure Seconds (s t : BrokerHistory F) (made : List (BrokerRawMeg × Bytes)) : Prop where
  /-- they are sent -/
  sent : t.sent.Perm (s.sent ++ made.map fun e => newBroker2Tx e.1 e.2)
  /-- the brokers stay -/
  brokers : t.state.broker.brokerAddress = s.state.broker.brokerAddress
  /-- so do the raw messages -/
  raws : t.raws = s.raws
  /-- and what is noted of first transactions -/
  confirm1 : t.state.brokerConfirm1Pool = s.state.brokerConfirm1Pool
  /-- transactions may come back -/
  plain : t.plain ≤ s.plain
  /-- hashes stay used -/
  used : s.used ⊆ t.used
  /-- they are made for raw messages -/
  mem : ∀ e ∈ made, e.1 ∈ s.raws
  /-- one for each listing of the first -/
  listed : ∀ h c, s.state.brokerConfirm1Pool h = some c →
    t.listed h = s.listed h + (made.map (·.1)).count c.rawMeg
  /-- other listings do not count -/
  unlisted : ∀ h, s.state.brokerConfirm1Pool h = none → t.listed h = s.listed h

/-- **Second transactions** are made. -/
theorem Made.seconds (hs : Made p brokerAddress s) {made : List (BrokerRawMeg × Bytes)}
    (h : Seconds s t made) (hsound : t.committee.Sound p) : Made p brokerAddress t := by
  have hfirst : ∀ m ∈ s.raws, t.sent.countP m.First = s.sent.countP m.First := by
    intro m hm
    rw [h.sent.countP_eq, List.countP_append, countP_made_zero fun e he hf => ?_, add_zero]
    exact hs.first_not_second (hs.broker m hm).1 (h.mem e he) hf (e.1.second_new e.2)
  have hsecond : ∀ m ∈ s.raws, t.sent.countP m.Second =
      s.sent.countP m.Second + (made.map (·.1)).count m := by
    intro m hm
    rw [h.sent.countP_eq, List.countP_append, countP_made fun e he => ?_]
    exact ⟨fun hf => hs.rawHash e.1 (h.mem e he) m hm hf.rawTxHash,
      fun heq => heq ▸ e.1.second_new e.2⟩
  refine ⟨hsound, h.brokers.trans hs.brokers, ?_, ?_, ?_, fun tx htx hne => ?_,
    fun tx htx => ?_, Multiset.nodup_of_le (Multiset.map_le_map h.plain) hs.plainHash, ?_, ?_,
    fun b c hc => ?_, ?_, fun b hb => ?_⟩
  · rw [h.raws]
    exact fun m hm => ⟨(hs.raw m hm).1, h.used (hs.raw m hm).2⟩
  · rw [h.raws]
    exact hs.broker
  · rw [h.raws]
    exact hs.rawHash
  · rw [h.raws]
    rcases List.mem_append.mp (h.sent.subset htx) with htx | htx
    · exact hs.kind tx htx hne
    · obtain ⟨e, he, rfl⟩ := List.mem_map.mp htx
      exact ⟨e.1, h.mem e he, rfl⟩
  · obtain ⟨hraw, hne, hused, hold⟩ := hs.plain tx (Multiset.mem_of_le h.plain htx)
    rw [h.raws]
    exact ⟨hraw, hne, h.used hused, hold⟩
  · rw [h.raws]
    exact fun m hm => (hfirst m hm).trans (hs.first m hm)
  · rw [h.raws, h.confirm1]
    exact hs.noted
  · rw [h.confirm1] at hc
    obtain ⟨hm, hused, hcount⟩ := hs.confirm b c hc
    rw [h.raws, hsecond _ hm, hcount, h.listed b c hc]
    exact ⟨hm, h.used hused, rfl⟩
  · rw [h.confirm1]
    exact hs.once
  · rw [h.confirm1] at hb
    rw [h.unlisted b hb]
    exact hs.unlisted b hb

/-- The history may forget, and use up hashes. -/
theorem Made.same (hs : Made p brokerAddress s) (hsound : t.committee.Sound p)
    (hstate : t.state = s.state) (hsent : t.sent = s.sent) (hplain : t.plain ≤ s.plain)
    (hused : s.used ⊆ t.used) (hlisted : t.listed = s.listed) : Made p brokerAddress t := by
  refine hs.seconds (t := t) (⟨?_, by rw [hstate], by rw [raws, hstate], by rw [hstate],
    hplain, hused, nofun, fun h c _ => ?_, fun h _ => ?_⟩ : Seconds s t []) hsound
  · rw [hsent, List.map_nil, List.append_nil]
  · rw [hlisted]
    rfl
  · rw [hlisted]

/-! ## Transactions are dealt with -/

/-- What dealing with transactions does: raw messages are new, and what is sent is made for
them, or plain. -/
structure Dealt (brokerAddress : List Address) (s t : BrokerHistory F)
    (made : List (BrokerRawMeg × Bytes)) (plain : List Transaction) : Prop where
  /-- it is sent -/
  sent : t.sent.Perm (s.sent ++ (made.map (fun e => newBroker1Tx e.1 e.2) ++ plain))
  /-- the brokers stay -/
  brokers : t.state.broker.brokerAddress = s.state.broker.brokerAddress
  /-- raw messages are noted -/
  raws : ∀ m, m ∈ t.raws ↔ m ∈ s.raws ∨ m ∈ made.map (·.1)
  /-- with their first transactions -/
  confirm1 : t.state.brokerConfirm1Pool = confirm1s s.state.brokerConfirm1Pool made
  /-- no two raw messages have the same hash -/
  nodup : ((made.map (·.1)).map (·.tx.txHash)).Nodup
  /-- their hashes are new -/
  valid : ∀ e ∈ made, e.1.tx.txHash ≠ [] ∧ e.1.tx.txHash ∈ t.used ∧
    ∀ m ∈ s.raws, m.tx.txHash ≠ e.1.tx.txHash
  /-- they go through the first broker, from somebody else -/
  broker : ∀ e ∈ made, e.1.tx.sender ∉ brokerAddress ∧ brokerAddress.head? = some e.1.broker
  /-- no two first transactions have the same hash -/
  hashes : (made.map (·.2)).Nodup
  /-- their hashes are new -/
  newHash : ∀ e ∈ made, e.2 ∉ s.used ∧ e.2 ∈ t.used
  /-- the rest is plain -/
  plain : ∀ tx ∈ plain, tx.rawTxHash = []
  /-- hashes stay used -/
  used : s.used ⊆ t.used
  /-- nothing is listed -/
  listed : t.listed = s.listed

namespace Dealt

variable {made : List (BrokerRawMeg × Bytes)} {plain : List Transaction} {m : BrokerRawMeg}

theorem mem_raws (h : Dealt brokerAddress s t made plain) {e : BrokerRawMeg × Bytes}
    (he : e ∈ made) : e.1 ∈ t.raws := (h.raws e.1).mpr (.inr (List.mem_map_of_mem he))

theorem raw (h : Dealt brokerAddress s t made plain) (hs : Made p brokerAddress s) :
    ∀ m ∈ t.raws, m.tx.txHash ≠ [] ∧ m.tx.txHash ∈ t.used := by
  intro m hm
  rcases (h.raws m).mp hm with hm | hm
  · exact ⟨(hs.raw m hm).1, h.used (hs.raw m hm).2⟩
  · obtain ⟨e, he, rfl⟩ := List.mem_map.mp hm
    exact ⟨(h.valid e he).1, (h.valid e he).2.1⟩

theorem broker_all (h : Dealt brokerAddress s t made plain) (hs : Made p brokerAddress s) :
    ∀ m ∈ t.raws, m.tx.sender ∉ brokerAddress ∧ brokerAddress.head? = some m.broker := by
  intro m hm
  rcases (h.raws m).mp hm with hm | hm
  · exact hs.broker m hm
  · obtain ⟨e, he, rfl⟩ := List.mem_map.mp hm
    exact h.broker e he

/-- The hash of a raw message tells it. -/
theorem rawHash (h : Dealt brokerAddress s t made plain) (hs : Made p brokerAddress s) :
    ∀ m ∈ t.raws, ∀ m' ∈ t.raws, m.tx.txHash = m'.tx.txHash → m = m' := by
  intro m hm m' hm' heq
  rcases (h.raws m).mp hm with hm | hm
  · rcases (h.raws m').mp hm' with hm' | hm'
    · exact hs.rawHash m hm m' hm' heq
    · obtain ⟨e, he, rfl⟩ := List.mem_map.mp hm'
      exact absurd heq ((h.valid e he).2.2 m hm)
  · rcases (h.raws m').mp hm' with hm' | hm'
    · obtain ⟨e, he, rfl⟩ := List.mem_map.mp hm
      exact absurd heq.symm ((h.valid e he).2.2 m' hm')
    · exact List.inj_on_of_nodup_map h.nodup hm hm' heq

/-- Nothing was made before for a raw message that is new. -/
theorem none_made (h : Dealt brokerAddress s t made plain) (hs : Made p brokerAddress s)
    (hm : m ∈ made.map (·.1)) {tx : Transaction} (htx : tx ∈ s.sent) :
    ¬ m.First tx ∧ ¬ m.Second tx := by
  obtain ⟨e, he, rfl⟩ := List.mem_map.mp hm
  have hnot : tx.rawTxHash ≠ e.1.tx.txHash := by
    intro heq
    obtain ⟨m', hm', heq'⟩ := hs.kind tx htx (heq ▸ (h.valid e he).1)
    exact (h.valid e he).2.2 m' hm' (heq'.trans heq)
  exact ⟨fun hf => hnot hf.rawTxHash, fun hf => hnot hf.rawTxHash⟩

/-- A raw message is not old and new. -/
theorem notMem_made (h : Dealt brokerAddress s t made plain) (hm : m ∈ s.raws) :
    m ∉ made.map (·.1) := by
  intro hin
  obtain ⟨e, he, rfl⟩ := List.mem_map.mp hin
  exact (h.valid e he).2.2 e.1 hm rfl

/-- **One first transaction** is made for each raw message. -/
theorem first (h : Dealt brokerAddress s t made plain) (hs : Made p brokerAddress s)
    (hm : m ∈ t.raws) : t.sent.countP m.First = 1 := by
  have hmade : ∀ e ∈ made, m.First (newBroker1Tx e.1 e.2) ↔ e.1 = m := fun e he =>
    ⟨fun hf => h.rawHash hs e.1 (h.mem_raws he) m hm hf.rawTxHash,
      fun heq => heq ▸ e.1.first_new e.2⟩
  have hplain : plain.countP (fun tx => m.First tx) = 0 := by
    refine List.countP_eq_zero.mpr fun tx htx => ?_
    have hne := (h.raw hs m hm).1
    simpa using fun hf : m.First tx => hne (hf.rawTxHash ▸ h.plain tx htx)
  rw [h.sent.countP_eq, List.countP_append, List.countP_append, hplain, add_zero,
    countP_made hmade]
  rcases (h.raws m).mp hm with hold | hin
  · rw [hs.first m hold, List.count_eq_zero_of_not_mem (h.notMem_made hold)]
  · have hnone : s.sent.countP (fun tx => m.First tx) = 0 :=
      List.countP_eq_zero.mpr fun tx htx => by simpa using (h.none_made hs hin htx).1
    rw [hnone, List.count_eq_one_of_mem (List.Nodup.of_map _ h.nodup) hin]

/-- No second transaction is made. -/
theorem second (h : Dealt brokerAddress s t made plain) (hs : Made p brokerAddress s)
    (hm : m ∈ t.raws) : t.sent.countP m.Second = s.sent.countP m.Second := by
  have hmade : (made.map fun e => newBroker1Tx e.1 e.2).countP (fun tx => m.Second tx) = 0 := by
    refine countP_made_zero fun e he hsecond => (h.broker e he).1 ?_
    have hsender : e.1.tx.sender = m.broker := hsecond.sender
    rw [hsender]
    exact List.mem_of_head? (h.broker_all hs m hm).2
  have hplain : plain.countP (fun tx => m.Second tx) = 0 := by
    refine List.countP_eq_zero.mpr fun tx htx => ?_
    have hne := (h.raw hs m hm).1
    simpa using fun hf : m.Second tx => hne (hf.rawTxHash ▸ h.plain tx htx)
  rw [h.sent.countP_eq, List.countP_append, List.countP_append, hmade, hplain, add_zero, add_zero]

/-- A hash that is noted was noted before, or is new. -/
theorem confirm_cases (h : Dealt brokerAddress s t made plain) {b : Bytes} {c : Mag1Confirm}
    (hc : t.state.brokerConfirm1Pool b = some c) :
    (s.state.brokerConfirm1Pool b = some c ∧ b ∉ made.map (·.2)) ∨
      ∃ e ∈ made, b = e.2 ∧ c.rawMeg = e.1 := by
  rw [h.confirm1] at hc
  by_cases hin : b ∈ made.map (·.2)
  · obtain ⟨e, he, rfl⟩ := List.mem_map.mp hin
    rw [confirm1s_of_mem h.hashes he] at hc
    obtain rfl := Option.some.inj hc
    exact .inr ⟨e, he, rfl, rfl⟩
  · rw [confirm1s_of_notMem hin] at hc
    exact .inl ⟨hc, hin⟩

/-- What was noted stays noted. -/
theorem confirm_of_old (h : Dealt brokerAddress s t made plain) (hs : Made p brokerAddress s)
    {b : Bytes} {c : Mag1Confirm} (hc : s.state.brokerConfirm1Pool b = some c) :
    t.state.brokerConfirm1Pool b = some c := by
  rw [h.confirm1, confirm1s_of_notMem fun hin => ?_]
  · exact hc
  · obtain ⟨e, he, rfl⟩ := List.mem_map.mp hin
    exact (h.newHash e he).1 (hs.confirm _ c hc).2.1

end Dealt

/-- **Dealing with transactions** keeps what was made. -/
theorem Made.dealt (hs : Made p brokerAddress s) {made : List (BrokerRawMeg × Bytes)}
    {plain : List Transaction} (h : Dealt brokerAddress s t made plain)
    (hsound : t.committee.Sound p)
    (hplain : ∀ tx ∈ t.plain, tx.rawTxHash = [] ∧ tx.txHash ≠ [] ∧ tx.txHash ∈ t.used ∧
      ∀ m ∈ t.raws, m.tx.txHash ≠ tx.txHash)
    (hplainHash : (t.plain.map (·.txHash)).Nodup) : Made p brokerAddress t := by
  refine ⟨hsound, h.brokers.trans hs.brokers, h.raw hs, h.broker_all hs, h.rawHash hs,
    fun tx htx hne => ?_, hplain, hplainHash, fun m hm => h.first hs hm, fun m hm => ?_,
    fun b c hc => ?_, fun b b' c c' hc hc' heq => ?_, fun b hb => ?_⟩
  · rcases List.mem_append.mp (h.sent.subset htx) with htx | htx
    · obtain ⟨m, hm, heq⟩ := hs.kind tx htx hne
      exact ⟨m, (h.raws m).mpr (.inl hm), heq⟩
    · rcases List.mem_append.mp htx with htx | htx
      · obtain ⟨e, he, rfl⟩ := List.mem_map.mp htx
        exact ⟨e.1, h.mem_raws he, rfl⟩
      · exact absurd (h.plain tx htx) hne
  · rcases (h.raws m).mp hm with hold | hin
    · obtain ⟨b, hb⟩ := hs.noted m hold
      exact ⟨b, h.confirm_of_old hs hb⟩
    · obtain ⟨e, he, rfl⟩ := List.mem_map.mp hin
      refine ⟨e.2, ?_⟩
      rw [h.confirm1]
      exact confirm1s_of_mem h.hashes he
  · rcases h.confirm_cases hc with ⟨hold, -⟩ | ⟨e, he, rfl, hm⟩
    · obtain ⟨hm, hb, hsecond⟩ := hs.confirm b c hold
      have hmem : c.rawMeg ∈ t.raws := (h.raws _).mpr (.inl hm)
      exact ⟨hmem, h.used hb, by rw [h.second hs hmem, h.listed, hsecond]⟩
    · -- a new one: nothing was made for it, and its hash was not listed
      have hmem := h.mem_raws he
      have hnone : s.sent.countP (fun tx => e.1.Second tx) = 0 :=
        List.countP_eq_zero.mpr fun tx htx => by
          simpa using (h.none_made hs (List.mem_map_of_mem he) htx).2
      have hunlisted : s.state.brokerConfirm1Pool e.2 = none := by
        refine Option.eq_none_iff_forall_ne_some.mpr fun c' hc' => ?_
        exact (h.newHash e he).1 (hs.confirm _ c' hc').2.1
      rw [hm]
      exact ⟨hmem, (h.newHash e he).2, by
        rw [h.second hs hmem, h.listed, hnone, hs.unlisted _ hunlisted]⟩
  · rcases h.confirm_cases hc with ⟨hold, -⟩ | ⟨e, he, rfl, hm⟩
    · rcases h.confirm_cases hc' with ⟨hold', -⟩ | ⟨e', he', rfl, hm'⟩
      · exact hs.once b b' c c' hold hold' heq
      · refine absurd (List.mem_map_of_mem he') (h.notMem_made (m := e'.1) ?_)
        rw [← hm', ← heq]
        exact (hs.confirm b c hold).1
    · rcases h.confirm_cases hc' with ⟨hold', -⟩ | ⟨e', he', rfl, hm'⟩
      · refine absurd (List.mem_map_of_mem he) (h.notMem_made (m := e.1) ?_)
        rw [← hm, heq]
        exact (hs.confirm b' c' hold').1
      · have hsame : e = e' := by
          have hnd : (made.map (·.1)).Nodup := List.Nodup.of_map _ h.nodup
          exact List.inj_on_of_nodup_map hnd he he' (hm.symm.trans (heq.trans hm'))
        rw [hsame]
  · rw [h.listed]
    refine hs.unlisted b (Option.eq_none_iff_forall_ne_some.mpr fun c hc => ?_)
    rw [h.confirm_of_old hs hc] at hb
    cases hb

/-- **Transactions that were not dealt with before**, with new hashes for what is made. -/
theorem Made.deal (hpos : 0 < p.shardNum) (hs : Made p brokerAddress s) {txs : List Transaction}
    {hashes new : List Bytes} {r : BrokerCommittee F × List (ℕ × List Transaction)}
    (htxs : ∀ tx ∈ txs, tx.rawTxHash = [] ∧ tx.txHash ≠ [] ∧ tx.txHash ∈ s.used ∪ new.toFinset ∧
      (∀ m ∈ s.raws, m.tx.txHash ≠ tx.txHash) ∧ ∀ t ∈ s.plain, t.txHash ≠ tx.txHash)
    (hnd : (txs.map (·.txHash)).Nodup) (hnew : s.NewHashes hashes) (hsub : hashes ⊆ new)
    (hsound : r.1.Sound p)
    (hstep : (s.committee.routes p).handleBatch s.state txs hashes = some (r.1.state, r.2)) :
    Made p brokerAddress (s.send r new) := by
  obtain ⟨raws, plain, hsort, hlen, hstate, hperm, -⟩ :=
    BrokerRoutes.handleBatch_spec (hs.sound.inRange hpos) hstep
  obtain ⟨hraws, hplain, hhash⟩ := BrokerRoutes.sortTxs_spec hsort
  have hfst : (raws.zip hashes).map (·.1) = raws := List.map_fst_zip hlen
  have hsnd := map_snd_zip_sublist raws hashes
  have hmem : ∀ e ∈ raws.zip hashes, e.1 ∈ raws := fun e he => (List.of_mem_zip he).1
  have hnd' := hhash.nodup_iff.mpr hnd
  rw [List.nodup_append] at hnd'
  have htRaws : ∀ m, m ∈ (s.send r new).raws ↔ m ∈ s.raws ∨ m ∈ raws := by
    intro m
    change m ∈ r.1.state.broker.brokerRawMegs ↔ _
    rw [hstate, ← List.mem_toFinset]
    exact Finset.mem_union
  have hdealt : Dealt brokerAddress s (s.send r new) (raws.zip hashes) plain := by
    refine ⟨hperm.append_left _, ?_, fun m => ?_, ?_, ?_, fun e he => ?_, fun e he => ?_,
      hnew.1.sublist hsnd, fun e he => ?_, fun tx htx => ?_, Finset.subset_union_left, rfl⟩
    · change r.1.state.broker.brokerAddress = _
      rw [hstate]
    · rw [htRaws, hfst]
    · change r.1.state.brokerConfirm1Pool = _
      rw [hstate]
    · rw [hfst]
      exact hnd'.1
    · obtain ⟨-, hne, hused, hold, -⟩ := htxs e.1.tx (hraws e.1 (hmem e he)).1
      exact ⟨hne, hused, hold⟩
    · obtain ⟨-, hcross, hbroker⟩ := hraws e.1 (hmem e he)
      rw [hs.brokers] at hbroker
      refine ⟨fun hsender => hcross.2.2 ?_, hbroker⟩
      rw [Broker.isBroker, hs.brokers]
      exact hsender
    · have hin : e.2 ∈ hashes := (List.of_mem_zip he).2
      exact ⟨(hnew.2 _ hin).2,
        Finset.mem_union_right _ (List.mem_toFinset.mpr (hsub hin))⟩
    · obtain ⟨t, ht, -, rfl⟩ := hplain tx htx
      rw [markBroker_rawTxHash]
      exact (htxs t ht).1
  -- what is plain of all that is sent
  have hplainOf : plainOf r.2 = (plain : Multiset Transaction) := by
    refine Multiset.coe_eq_coe.mpr ((hperm.filter _).trans (List.Perm.of_eq ?_))
    rw [List.filter_append, List.filter_eq_nil_iff.mpr fun tx htx => ?_, List.nil_append,
      List.filter_eq_self.mpr fun tx htx => decide_eq_true (hdealt.plain tx htx)]
    obtain ⟨e, he, rfl⟩ := List.mem_map.mp htx
    change ¬ decide (e.1.tx.txHash = []) = true
    simpa using (hdealt.valid e he).1
  have hplainHash : ∀ tx ∈ plain, ∃ t ∈ txs, tx.txHash = t.txHash := by
    intro tx htx
    obtain ⟨t, ht, -, rfl⟩ := hplain tx htx
    exact ⟨t, ht, markBroker_txHash t⟩
  refine hs.dealt hdealt hsound (fun tx htx => ?_) ?_
  · rcases Multiset.mem_add.mp htx with htx | htx
    · obtain ⟨hraw, hne, hused, hold⟩ := hs.plain tx htx
      refine ⟨hraw, hne, Finset.mem_union_left _ hused, fun m hm => ?_⟩
      rcases (htRaws m).mp hm with hm | hm
      · exact hold m hm
      · exact ((htxs _ (hraws m hm).1).2.2.2.2 tx htx).symm
    · rw [hplainOf, Multiset.mem_coe] at htx
      obtain ⟨t, ht, heq⟩ := hplainHash tx htx
      obtain ⟨-, hne, hused, hold, -⟩ := htxs t ht
      refine ⟨hdealt.plain tx htx, heq ▸ hne, heq ▸ hused, fun m hm => ?_⟩
      rcases (htRaws m).mp hm with hm | hm
      · exact heq ▸ hold m hm
      · exact hnd'.2.2 _ (List.mem_map_of_mem hm) _ (List.mem_map_of_mem htx)
  · change ((s.plain + plainOf r.2).map (·.txHash)).Nodup
    rw [hplainOf, Multiset.map_add, Multiset.nodup_add, Multiset.map_coe]
    refine ⟨hs.plainHash, Multiset.coe_nodup.mpr hnd'.2.1, ?_⟩
    rw [Multiset.disjoint_left]
    intro b hb hb'
    obtain ⟨t, ht, rfl⟩ := Multiset.mem_map.mp hb
    obtain ⟨tx, htx, heq⟩ := List.mem_map.mp (Multiset.mem_coe.mp hb')
    obtain ⟨t', ht', heq'⟩ := hplainHash tx htx
    exact (htxs t' ht').2.2.2.2 t ht (heq.symm.trans heq')

/-! ## Transactions are listed -/

/-- The raw messages whose first transactions are listed were handled. -/
theorem Made.mem_listedRaws (hs : Made p brokerAddress s) {txs : List Transaction}
    {m : BrokerRawMeg} (hm : m ∈ BrokerRoutes.listedRaws s.state txs) : m ∈ s.raws := by
  obtain ⟨c, hc, rfl⟩ := List.mem_map.mp hm
  obtain ⟨tx, -, htx⟩ := List.mem_filterMap.mp hc
  exact (hs.confirm _ c htx).1

/-- They are listed as often as the hash of the first transaction. -/
theorem Made.count_listedRaws (hs : Made p brokerAddress s) {h : Bytes} {c : Mag1Confirm}
    (hc : s.state.brokerConfirm1Pool h = some c) (txs : List Transaction) :
    (BrokerRoutes.listedRaws s.state txs).count c.rawMeg =
      txs.countP fun tx => tx.txHash = h := by
  induction txs with
  | nil => rfl
  | cons tx txs ih =>
    rw [List.countP_cons, ← ih, BrokerRoutes.listedRaws, BrokerRoutes.listedRaws]
    cases hpool : s.state.brokerConfirm1Pool tx.txHash with
    | none =>
      have hne : tx.txHash ≠ h := by
        rintro rfl
        rw [hpool] at hc
        cases hc
      simp [hpool, hne]
    | some c' =>
      -- a raw message has one hash in the pool
      have hsame : c'.rawMeg = c.rawMeg ↔ tx.txHash = h := by
        refine ⟨fun heq => hs.once _ _ _ _ hpool hc heq, fun heq => ?_⟩
        rw [heq, hc] at hpool
        rw [Option.some.inj hpool]
      have hcons : (tx :: txs).filterMap (fun tx => s.state.brokerConfirm1Pool tx.txHash) =
          c' :: txs.filterMap fun tx => s.state.brokerConfirm1Pool tx.txHash :=
        List.filterMap_cons_some hpool
      rw [hcons, List.map_cons, List.count_cons]
      simp [hsame]

/-- **A block information** keeps what was made. -/
theorem Made.blockInfo (hpos : 0 < p.shardNum) (hs : Made p brokerAddress s) {b : BrokerInfoMsg}
    {hashes : List Bytes} {r : BrokerCommittee F × List (ℕ × List Transaction)}
    (hstep : s.committee.handleBlockInfo p b hashes = some r) :
    Made p brokerAddress
      { s.send r hashes with listed := fun h => s.listed h + s.listing b h } := by
  obtain ⟨hsound, ⟨hempty, hstate, hsent⟩ | ⟨hbody, hconfirm⟩⟩ := hs.sound.handleBlockInfo hstep
  · refine hs.same hsound hstate ?_ ?_ Finset.subset_union_left ?_
    · change s.sent ++ r.2.flatMap (·.2) = s.sent
      rw [hsent, List.flatMap_nil, List.append_nil]
    · change s.plain + plainOf r.2 ≤ s.plain
      rw [hsent]
      exact (add_zero s.plain).le
    · funext h
      change s.listed h + s.listing b h = s.listed h
      rw [listing, if_pos (.inl hempty), add_zero]
  · obtain ⟨hlen, ⟨notes, pool, hstate⟩, hperm, -⟩ := BrokerRoutes.createConfirm_spec
      (hs.sound.inRange hpos) (fun m hm => ⟨hs.mem_listedRaws hm, by
        rw [hs.brokers]
        exact (hs.broker m (hs.mem_listedRaws hm)).2⟩) hconfirm
    have hfst := List.map_fst_zip hlen
    have hmem : ∀ e ∈ (BrokerRoutes.listedRaws s.state (b.broker1Txs ++ b.broker2Txs)).zip hashes,
        e.1 ∈ s.raws := fun e he => hs.mem_listedRaws (List.of_mem_zip he).1
    -- none of what is made is plain
    have hplainOf : plainOf r.2 = 0 := by
      refine (Multiset.coe_eq_zero _).mpr (List.filter_eq_nil_iff.mpr fun tx htx => ?_)
      obtain ⟨e, he, rfl⟩ := List.mem_map.mp (hperm.subset htx)
      change ¬ decide (e.1.tx.txHash = []) = true
      simpa using (hs.raw e.1 (hmem e he)).1
    refine hs.seconds ⟨hperm.append_left _, ?_, ?_, ?_, ?_, Finset.subset_union_left, hmem,
      fun h c hc => ?_, fun h hh => ?_⟩ hsound
    · change r.1.state.broker.brokerAddress = _
      rw [hstate]
    · change r.1.state.broker.brokerRawMegs = _
      rw [hstate]
    · change r.1.state.brokerConfirm1Pool = _
      rw [hstate]
    · change s.plain + plainOf r.2 ≤ s.plain
      rw [hplainOf, add_zero]
    · change s.listed h + s.listing b h = _
      rw [hfst, hs.count_listedRaws hc, listing, if_neg]
      rw [hc]
      simpa using hbody
    · change s.listed h + s.listing b h = s.listed h
      rw [listing, if_pos (.inr hh), add_zero]

/-! ## Every step -/

/-- **Every step keeps what was made.** -/
theorem Made.step (hpos : 0 < p.shardNum) (hs : Made p brokerAddress s) {e : BrokerEvent}
    (hstep : s.step fl p e = some t) : Made p brokerAddress t := by
  cases e with
  | batch txs hashes =>
    rw [BrokerHistory.step] at hstep
    split at hstep
    case isFalse => cases hstep
    rename_i hok
    obtain ⟨⟨hnd, hnew⟩, hraw⟩ := hok
    obtain ⟨r, hbatch, rfl⟩ := Option.map_eq_some_iff.mp hstep
    obtain ⟨hsound, hdone⟩ := hs.sound.handleBatch hbatch
    rw [List.nodup_append] at hnd
    have hin : ∀ tx ∈ txs, tx.txHash ∈ txs.map (·.txHash) ++ hashes :=
      fun tx htx => List.mem_append_left _ (List.mem_map_of_mem htx)
    refine hs.deal hpos (fun tx htx => ⟨hraw tx htx, (hnew _ (hin tx htx)).1,
      Finset.mem_union_right _ (List.mem_toFinset.mpr (hin tx htx)), fun m hm heq => ?_,
      fun t ht heq => ?_⟩) hnd.1 ⟨hnd.2.1, fun h hh => hnew h (List.mem_append_right _ hh)⟩
      (List.subset_append_right _ _) hsound hdone
    · exact (hnew _ (hin tx htx)).2 (heq ▸ (hs.raw m hm).2)
    · exact (hnew _ (hin tx htx)).2 (heq ▸ (hs.plain t ht).2.2.1)
  | innerTx2CrossTx txs hashes =>
    rw [BrokerHistory.step] at hstep
    split at hstep
    case isFalse => cases hstep
    rename_i hok
    obtain ⟨hnew, hle⟩ := hok
    obtain ⟨r, hother, rfl⟩ := Option.map_eq_some_iff.mp hstep
    -- those that come back are dealt with as if they had never been sent
    have hrest : Made p brokerAddress { s with plain := s.plain - txs } :=
      hs.same hs.sound rfl rfl (Multiset.sub_le_self _ _) (Finset.Subset.refl _) rfl
    rcases hs.sound.handleOtherMessage hother with ⟨hc, hsent⟩ | ⟨hsound, hdone⟩
    · refine hrest.same (hc ▸ hs.sound) (congrArg BrokerCommittee.state hc) ?_ ?_
        Finset.subset_union_left rfl
      · change s.sent ++ r.2.flatMap (·.2) = s.sent
        rw [hsent, List.flatMap_nil, List.append_nil]
      · change s.plain - txs + plainOf r.2 ≤ s.plain - txs
        rw [hsent]
        exact (add_zero _).le
    · have hmem : ∀ tx ∈ txs, tx ∈ s.plain :=
        fun tx htx => Multiset.mem_of_le hle (Multiset.mem_coe.mpr htx)
      have hsplit := hs.plainHash
      rw [← add_tsub_cancel_of_le hle, Multiset.map_add, Multiset.nodup_add,
        Multiset.map_coe] at hsplit
      obtain ⟨hnd, -, hdisj⟩ := hsplit
      refine hrest.deal hpos (fun tx htx => ?_) (Multiset.coe_nodup.mp hnd) hnew
        (List.Subset.refl _) hsound hdone
      obtain ⟨hraw, hne, hused, hold⟩ := hs.plain tx (hmem tx htx)
      refine ⟨hraw, hne, Finset.mem_union_left _ hused, hold, fun t ht heq => ?_⟩
      exact Multiset.disjoint_left.mp hdisj (Multiset.mem_coe.mpr (List.mem_map_of_mem htx))
        (heq ▸ Multiset.mem_map_of_mem _ ht)
  | blockInfo b hashes =>
    rw [BrokerHistory.step] at hstep
    split at hstep
    case isFalse => cases hstep
    obtain ⟨r, hinfo, rfl⟩ := Option.map_eq_some_iff.mp hstep
    exact hs.blockInfo hpos hinfo
  | repartition orders =>
    obtain ⟨c, hpart, rfl⟩ := Option.map_eq_some_iff.mp hstep
    obtain ⟨hsound, hstate⟩ := hs.sound.repartition hpart
    exact hs.same hsound hstate rfl le_rfl (Finset.Subset.refl _) rfl

end BrokerHistory

/-- **When broker transactions are made at most once.** In every history of either committee,
with block informations of any content, in any order and any number: at most one first and
one second transaction have been made and sent for each raw transaction, exactly where no
first transaction has been listed twice. -/
theorem broker_at_most_once_iff {F H : Type} (fl : FloatOps F) (p : BrokerParams H)
    (hpos : 0 < p.shardNum) (brokerAddress : List Address) (kind : BrokerKind)
    {s : BrokerHistory F} (hr : Reaches (BrokerHistory.step fl p) (fun _ _ => True)
      (.start (.new fl p brokerAddress kind)) s) :
    s.AtMostOnce ↔ ∀ h, s.listed h ≤ 1 := by
  have hs : BrokerHistory.Made p brokerAddress s :=
    hr.invariant _ (.start kind) fun _ _ _ hs _ hstep => hs.step hpos hstep
  constructor
  · intro hall h
    cases hh : s.state.brokerConfirm1Pool h with
    | none =>
      rw [hs.unlisted h hh]
      exact Nat.zero_le 1
    | some c =>
      obtain ⟨hm, -, hcount⟩ := hs.confirm h c hh
      rw [← hcount]
      exact (hall _ hm).2
  · intro hall m hm
    obtain ⟨h, hh⟩ := hs.noted m hm
    refine ⟨(hs.first m hm).le, ?_⟩
    rw [(hs.confirm h _ hh).2.2]
    exact hall h

/-! ## Runs -/

/-- Two shards. -/
def twoShardParams : BrokerParams FreeHash := ⟨freeHash, 2, 10⟩

/-- The first transaction of `a`'s payment to `b`, through the broker `c`. -/
def crossFirst : Transaction := newBroker1Tx ⟨crossTransaction, "c"⟩ [2]

/-- A block information that lists it. -/
def crossInfo : BrokerInfoMsg := ⟨1, [], [crossFirst], [], 0, 0⟩

/-- The payment is handled, and its first transaction is listed by one block information
after the other. -/
def brokeredRun (hashes : List Bytes) : List BrokerEvent :=
  .batch [crossTransaction] [[2]] :: hashes.map fun h => .blockInfo crossInfo [h]

/-- **Listed once**: one first and one second transaction. -/
theorem broker_at_most_once_listed :
    ∃ s, Reaches (BrokerHistory.step ratOps twoShardParams) (fun _ _ => True)
        (.start (.new ratOps twoShardParams ["c"] .clpaBroker)) s ∧
      s.sent.length = 2 ∧ ∀ h, s.listed h ≤ 1 := by
  have hrun : ((runWith (BrokerHistory.step ratOps twoShardParams) (fun _ _ => True)
      (.start (.new ratOps twoShardParams ["c"] .clpaBroker)) (brokeredRun [[3]])).any fun s =>
        decide (s.sent.length = 2 ∧ s.AtMostOnce)) = true := by
    decide +kernel
  obtain ⟨s, hr, hlen, honce⟩ := Reaches.exists_of_runWith hrun
  exact ⟨s, hr, hlen,
    (broker_at_most_once_iff ratOps twoShardParams (by decide) ["c"] .clpaBroker hr).mp honce⟩

/-- **Listed twice**: two second transactions, in both committees. -/
theorem broker_twice :
    (∃ s, Reaches (BrokerHistory.step ratOps twoShardParams) (fun _ _ => True)
      (.start (.new ratOps twoShardParams ["c"] .broker)) s ∧ ¬ s.AtMostOnce) ∧
    ∃ s, Reaches (BrokerHistory.step ratOps twoShardParams) (fun _ _ => True)
      (.start (.new ratOps twoShardParams ["c"] .clpaBroker)) s ∧ ¬ s.AtMostOnce := by
  have hbroker : ((runWith (BrokerHistory.step ratOps twoShardParams) (fun _ _ => True)
      (.start (.new ratOps twoShardParams ["c"] .broker)) (brokeredRun [[3], [4]])).any fun s =>
        decide (¬ s.AtMostOnce)) = true := by
    decide +kernel
  have hclpa : ((runWith (BrokerHistory.step ratOps twoShardParams) (fun _ _ => True)
      (.start (.new ratOps twoShardParams ["c"] .clpaBroker)) (brokeredRun [[3], [4]])).any fun s =>
        decide (¬ s.AtMostOnce)) = true := by
    decide +kernel
  exact ⟨Reaches.exists_of_runWith hbroker, Reaches.exists_of_runWith hclpa⟩

end BlockEmulator
