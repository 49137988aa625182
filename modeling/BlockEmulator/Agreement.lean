import BlockEmulator.Quorum
import BlockEmulator.SequenceDrift

/-!
# Agreement

Nodes that commit at the same sequence number should commit the same request. A
node commits behind a quorum of commit votes, and quorums intersect, so what is
left is that a node does not vote to commit two requests of the same height. The
handlers do not check it: they count votes by digest, accept any number of
proposals for a number, and a new view starts the number over.

* `Tallied` — the commit votes that a node counts were cast, what is committed has
  a quorum of them, and no honest node has cast two of one height. Every step
  keeps it as long as nodes are aligned and vote once (`Tallied.step`).
* `agreement_in_one_view` — a shard with Byzantine nodes, in one view.
* `agreement_across_views` — a shard without Byzantine nodes, in any views.
-/

namespace BlockEmulator

open StepSystem PbftNode Quorum

variable {App R D In Out : Type}

namespace PbftNode

variable [DecidableEq D] {cfg : PbftConfig App R D In Out} {number : R → Option ℕ}
  {p p' : PbftNode App R D} {input : NodeInput R D In} {outs : List (Output R D Out)}

/-- A counted vote is that of a member. -/
theorem set2DMap_mem {confirm confirm' : D → Finset ℕ} {key d : D} {val : Option Node} {n : ℕ}
    (h : set2DMap cfg confirm key val = some confirm') (hn : n ∈ confirm' d) :
    n ∈ confirm d ∨
      key = d ∧ n < cfg.nodeNums ∧ ∃ node, val = some node ∧ node.nodeID = n := by
  rcases val with _ | node
  · cases h
  rw [set2DMap] at h
  split at h
  · rename_i hok
    obtain rfl := Option.some.inj h
    rw [Function.update_apply] at hn
    split at hn
    · rename_i hd
      subst hd
      rcases Finset.mem_insert.mp hn with rfl | hn
      · exact .inr ⟨rfl, hok.2.1, node, rfl, rfl⟩
      · exact .inl hn
    · exact .inl hn
  · cases h

/-- A commit vote is counted when its message is handled. -/
theorem Transition.counted (h : Transition cfg p input p' outs) {d : D} {n : ℕ}
    (hn : n ∈ p'.cntCommitConfirm d) :
    n ∈ p.cntCommitConfirm d ∨
      n < cfg.nodeNums ∧ ∃ m node, input = .receive (.commit m) ∧ m.digest = d ∧
        m.senderNode = some node ∧ node.nodeID = n := by
  have hmap : ∀ m confirm, input = .receive (.commit m) →
      set2DMap cfg p.cntCommitConfirm m.digest m.senderNode = some confirm → n ∈ confirm d →
      n ∈ p.cntCommitConfirm d ∨
        n < cfg.nodeNums ∧ ∃ m node, input = .receive (.commit m) ∧ m.digest = d ∧
          m.senderNode = some node ∧ node.nodeID = n := by
    intro m confirm hin hc hn
    rcases set2DMap_mem hc hn with hn | ⟨hd, hlt, node, hs, hid⟩
    · exact .inl hn
    · exact .inr ⟨hlt, m, node, hin, hd, hs, hid⟩
  cases h with
  | commitCounted m confirm ha hs hc => exact hmap m confirm rfl hc hn
  | blocked m confirm ha hs hc => exact hmap m confirm rfl hc hn
  | asked m confirm ha hst hs hc =>
    refine hmap m confirm rfl hc ?_
    simpa [askForRequests, endRound_eq, countCommit] using hn
  | commitPanicked m confirm r app ha hs hc => exact hmap m confirm rfl hc hn
  | committed m confirm r app outs ha hst hs hc =>
    refine hmap m confirm rfl hc ?_
    simpa [endRound_eq, applied] using hn
  | resumed seqID =>
    refine .inl ?_
    simpa [askForRequests, endRound_eq] using hn
  | oldFailed m app =>
    rw [unlockAskFor_eq] at hn
    exact .inl hn
  | oldInstalled m app =>
    rw [unlockAskFor_eq, installed_eq] at hn
    exact .inl hn
  | oldPrepared m app a =>
    rw [unlockAskFor_eq, installed_eq] at hn
    exact .inl hn
  | oldPanicked m app =>
    rw [installed_eq] at hn
    exact .inl hn
  | _ => exact .inl hn

/-- Whether handling a Prepare completes the quorum of its request. -/
def completesPrepare (cfg : PbftConfig App R D In Out) (p : PbftNode App R D) (m : Prepare D) :
    Prop :=
  m.seqID = p.sequenceID ∧ p.isCommitBordcast m.digest = false ∧
    ∃ confirm, set2DMap cfg p.cntPrepareConfirm m.digest m.senderNode = some confirm ∧
      cfg.quorum ≤ (confirm m.digest).card

/-- A node votes to commit a request it has stored, when a Prepare completes its
quorum. -/
theorem Transition.commit_sent (h : Transition cfg p input p' outs) {dest : Dest}
    {v : Commit D} (hv : .send dest (.commit v) ∈ outs) :
    ∃ m r, input = .receive (.prepare m) ∧ completesPrepare cfg p m ∧
      p.requestPool m.digest = some r ∧ v.digest = m.digest ∧
      v.senderNode = some cfg.runningNode := by
  cases h with
  | endorsed m confirm r ha hst hs hr hc hq hb =>
    obtain ⟨-, rfl⟩ : _ ∧ v = _ := by simpa using hv
    exact ⟨m, r, rfl, ⟨hs, hb, confirm, hc, hq⟩, hr, rfl, rfl⟩
  | asked m confirm => simp [askForRequests] at hv
  | resumed seqID => simp [askForRequests] at hv
  | committed m confirm a app => simp at hv
  | _ => simp at hv

/-- A node commits, at its sequence number, the request after its chain that it
has stored and counts a quorum of votes for. -/
theorem Transition.committed_sent (h : Transition cfg p input p' outs)
    (hlaw : LawfulModule cfg.ihm cfg.ohm number) {seq : ℕ} {d : D}
    (hd : .committed seq d ∈ outs) :
    seq = p.sequenceID ∧ cfg.quorum ≤ (p'.cntCommitConfirm d).card ∧
      ∃ r, p.requestPool d = some r ∧ number r = some (cfg.ihm.height p.curChain + 1) := by
  cases h with
  | committed m confirm r app outs ha hst hs hc hq hn hr hcm =>
    obtain ⟨rfl, rfl⟩ : seq = _ ∧ d = _ := by simpa using hd
    refine ⟨rfl, ?_, r, hr, (hlaw.commit hcm).1⟩
    simpa [endRound_eq, applied] using hq
  | asked m confirm => simp [askForRequests] at hd
  | resumed seqID => simp [askForRequests] at hd
  | _ => simp at hd

end PbftNode

/-! ## Votes in a shard -/

variable [DecidableEq R] [DecidableEq D] {cfg : PbftConfig App R D In Out}
  {number : R → Option ℕ} {byz : Finset ℕ} {s t : ShardState App R D Out}
  {a : ShardAction R D In}

/-- A vote to commit a request was sent under the identity of a node. -/
def Voted (s : ShardState App R D Out) (n : ℕ) (d : D) : Prop :=
  ∃ k dest v node, (k, .send dest (.commit v)) ∈ s.history ∧ v.digest = d ∧
    v.senderNode = some node ∧ node.nodeID = n

/-- The voting record of a shard: the slot of a request is its height. -/
def castVote (cfg : PbftConfig App R D In Out) (number : R → Option ℕ)
    (s : ShardState App R D Out) (n slot : ℕ) (d : D) : Prop :=
  Voted s n d ∧ ∃ r, cfg.getDigest r = d ∧ number r = some slot

/-- **Agreement**: at one sequence number all nodes commit the same request. -/
def Agree (s : ShardState App R D Out) : Prop :=
  ∀ i j seq d d', (i, .committed seq d) ∈ s.history → (j, .committed seq d') ∈ s.history →
    d = d'

/-- The condition on a step: a node that completes the prepare quorum of a request
has not voted to commit another one of the same height; where two quorums need not
intersect in an honest node, no honest node has. -/
def CommitsOnce (cfg : PbftConfig App R D In Out) (byz : Finset ℕ) (number : R → Option ℕ)
    (s : ShardState App R D Out) : ShardAction R D In → Prop
  | .node i (.receive (.prepare m)) => completesPrepare (cfg.at i) (s.nodes i) m →
      ∀ r, (s.nodes i).requestPool m.digest = some r →
      ∀ k ∉ byz, k = i ∨ 2 * cfg.quorum ≤ cfg.nodeNums + byz.card →
      ∀ r', Voted s k (cfg.getDigest r') → number r' = number r → cfg.getDigest r' = m.digest
  | _ => True

/-- The votes that nodes count were cast, and what is committed has a quorum. -/
structure Tallied (cfg : PbftConfig App R D In Out) (byz : Finset ℕ) (number : R → Option ℕ)
    (s : ShardState App R D Out) : Prop where
  /-- requests are stored under their digests -/
  pool : ∀ i d r, (s.nodes i).requestPool d = some r → cfg.getDigest r = d
  /-- a counted vote is one that a member has cast -/
  counted : ∀ i d n, n ∈ (s.nodes i).cntCommitConfirm d → n < cfg.nodeNums ∧ Voted s n d
  /-- a committed request has a quorum of votes -/
  decided : ∀ i seq d, (i, .committed seq d) ∈ s.history →
    Decided (castVote cfg number s) (Finset.range cfg.nodeNums) byz cfg.quorum seq d
  /-- honest nodes vote once per height -/
  once : VotesOnce (castVote cfg number s) byz
  /-- where quorums need not intersect, honest nodes vote alike -/
  alike : 2 * cfg.quorum ≤ cfg.nodeNums + byz.card → VotesAlike (castVote cfg number s) byz

omit [DecidableEq R] [DecidableEq D] in
/-- Votes are never taken back. -/
theorem Voted.mono {n : ℕ} {d : D} (h : Voted s n d) (hsub : s.history ⊆ t.history) :
    Voted t n d := by
  obtain ⟨k, dest, v, node, hmem, hrest⟩ := h
  exact ⟨k, dest, v, node, hsub hmem, hrest⟩

omit [DecidableEq R] [DecidableEq D] in
theorem castVote.mono {n slot : ℕ} {d : D} (h : castVote cfg number s n slot d)
    (hsub : s.history ⊆ t.history) : castVote cfg number t n slot d :=
  ⟨h.1.mono hsub, h.2⟩

omit [DecidableEq R] in
/-- An honest node's vote is one it has cast before, or casts in this step. -/
theorem voted_step [DecidableEq R] {n : ℕ} {d : D} (h : s.step cfg byz a = some t)
    (hn : n ∉ byz) (hv : Voted t n d) :
    Voted s n d ∨ ∃ m r, a = .node n (.receive (.prepare m)) ∧
      completesPrepare (cfg.at n) (s.nodes n) m ∧
      (s.nodes n).requestPool m.digest = some r ∧ d = m.digest := by
  obtain ⟨k, dest, v, node, hmem, hd, hnode, hid⟩ := hv
  rcases a with ⟨i, input⟩ | ⟨b, m⟩
  · obtain ⟨-, -, -, -, p, outs, htr, rfl⟩ := ShardState.step_node h
    rcases ShardState.mem_history_node hmem with hmem | ⟨-, hmem⟩
    · exact .inl ⟨k, dest, v, node, hmem, hd, hnode, hid⟩
    · obtain ⟨m, r, rfl, hcomp, hr, hvd, hvn⟩ := htr.commit_sent hmem
      obtain rfl : node = (cfg.at i).runningNode := Option.some.inj (hnode.symm.trans hvn)
      obtain rfl : i = n := hid
      exact .inr ⟨m, r, rfl, hcomp, hr, hd.symm.trans hvd⟩
  · obtain ⟨-, hforge, rfl⟩ := ShardState.step_forge h
    rcases List.mem_cons.mp hmem with heq | hmem
    · -- a Byzantine node votes only under an identity of its own kind
      obtain ⟨-, -, rfl⟩ : k = b ∧ dest = .all ∧ .commit v = m := by simpa using heq
      simp only [Message.forgeable, hnode, Option.all_some, decide_eq_true_eq] at hforge
      exact absurd (hid ▸ hforge) hn
    · exact .inl ⟨k, dest, v, node, hmem, hd, hnode, hid⟩

namespace Tallied

omit [DecidableEq R] [DecidableEq D] in
theorem new (apps : ℕ → App) :
    Tallied cfg byz number (ShardState.new cfg.ihm.height apps : ShardState App R D Out) where
  pool i d r h := by cases h
  counted i d n h := absurd h (Finset.notMem_empty n)
  decided i seq d h := by cases h
  once := by
    rintro m - slot v w ⟨⟨k, dest, u, node, hmem, -⟩, -⟩
    cases hmem
  alike := by
    rintro - m - n - slot v w ⟨⟨k, dest, u, node, hmem, -⟩, -⟩
    cases hmem

omit [DecidableEq R] [DecidableEq D] in
/-- **Agreement from the tally**: two quorums share an honest node. -/
theorem agree (hs : Tallied cfg byz number s) (hq : byz.card < cfg.quorum) : Agree s := by
  intro i j seq d d' hd hd'
  refine decided_unique hq hs.once (fun hle => hs.alike ?_) (hs.decided i seq d hd)
    (hs.decided j seq d' hd')
  rwa [Finset.card_range] at hle

/-- Two votes for one height, by one node or where the condition speaks of all
nodes, are for the same request after the step if they were before. -/
theorem castVote_eq (hdig : Function.Injective cfg.getDigest) (hs : Tallied cfg byz number s)
    (hc : CommitsOnce cfg byz number s a) (h : s.step cfg byz a = some t) {k l slot : ℕ}
    {v w : D} (hk : k ∉ byz) (hl : l ∉ byz)
    (hkl : k = l ∨ 2 * cfg.quorum ≤ cfg.nodeNums + byz.card)
    (hold : castVote cfg number s k slot v → castVote cfg number s l slot w → v = w)
    (hv : castVote cfg number t k slot v) (hw : castVote cfg number t l slot w) : v = w := by
  obtain ⟨hvote, r, hrv, hr⟩ := hv
  obtain ⟨hwote, r', hrw, hr'⟩ := hw
  rcases voted_step h hk hvote with hv | ⟨m, q, rfl, hcomp, hq, rfl⟩
  · rcases voted_step h hl hwote with hw | ⟨m, q, rfl, hcomp, hq, rfl⟩
    · exact hold ⟨hv, r, hrv, hr⟩ ⟨hw, r', hrw, hr'⟩
    · -- the second vote is new
      obtain rfl : q = r' := hdig ((hs.pool l _ q hq).trans hrw.symm)
      subst hrv
      exact hc hcomp q hq k hk hkl r hv (hr.trans hr'.symm)
  · obtain rfl : q = r := hdig ((hs.pool k _ q hq).trans hrv.symm)
    rcases voted_step h hl hwote with hw | ⟨m', q', heq, -, -, rfl⟩
    · -- the first vote is new
      subst hrw
      exact (hc hcomp q hq l hl (hkl.imp_left Eq.symm) r' hw (hr'.trans hr.symm)).symm
    · -- both are, so they are one
      obtain ⟨-, rfl⟩ : k = l ∧ m = m' := by simpa using heq
      rfl

/-- **Every step keeps the tally**, where nodes are aligned and vote once. -/
theorem step (hlaw : LawfulModule cfg.ihm cfg.ohm number)
    (hdig : Function.Injective cfg.getDigest) (hs : Tallied cfg byz number s)
    (hal : AllAligned cfg s) (hc : CommitsOnce cfg byz number s a)
    (h : s.step cfg byz a = some t) : Tallied cfg byz number t := by
  have hsub := ShardState.history_subset h
  have honce : VotesOnce (castVote cfg number t) byz := fun m hm slot v w hv hw =>
    hs.castVote_eq hdig hc h hm hm (.inl rfl) (hs.once m hm slot v w) hv hw
  have halike : 2 * cfg.quorum ≤ cfg.nodeNums + byz.card →
      VotesAlike (castVote cfg number t) byz := fun hle m hm n hn slot v w hv hw =>
    hs.castVote_eq hdig hc h hm hn (.inr hle) (hs.alike hle m hm n hn slot v w) hv hw
  rcases a with ⟨i, input⟩ | ⟨b, m⟩
  · obtain ⟨-, -, harr, hf, p, outs, htr, rfl⟩ := ShardState.step_node h
    have hpool : ∀ d r, p.requestPool d = some r → cfg.getDigest r = d := fun d r hr => by
      rcases htr.requestPool hr with hr | ⟨hr, -⟩
      · exact hs.pool i d r hr
      · exact hr
    -- a count grows by a vote that was sent, so what is counted was voted
    have hcounted : ∀ d n, n ∈ p.cntCommitConfirm d → n < cfg.nodeNums ∧
        Voted (⟨Function.update s.nodes i p, outs.map (i, ·) ++ s.history⟩ :
          ShardState App R D Out) n d := fun d n hn => by
      rcases htr.counted hn with hn | ⟨hlt, m, node, rfl, hd, hnode, hid⟩
      · obtain ⟨hlt, hv⟩ := hs.counted i d n hn
        exact ⟨hlt, hv.mono hsub⟩
      · obtain ⟨k, dest, hsent⟩ := ShardState.arrives_receive harr
        exact ⟨hlt, k, dest, m, node, hsub hsent, hd, hnode, hid⟩
    refine ⟨fun j d r hr => ?_, fun j d n hn => ?_, fun j seq d hd => ?_, honce, halike⟩
    · dsimp only at hr
      rw [Function.update_apply] at hr
      split at hr
      · exact hpool d r hr
      · exact hs.pool j d r hr
    · dsimp only at hn
      rw [Function.update_apply] at hn
      split at hn
      · exact hcounted d n hn
      · obtain ⟨hlt, hv⟩ := hs.counted j d n hn
        exact ⟨hlt, hv.mono hsub⟩
    · rcases ShardState.mem_history_node hd with hd | ⟨-, hd⟩
      · exact (hs.decided j seq d hd).mono fun n hn => hn.mono hsub
      · -- the node commits: its own count is the quorum
        obtain ⟨rfl, hq, r, hr, hnum⟩ := htr.committed_sent hlaw hd
        refine ⟨p.cntCommitConfirm d, fun n hn => ?_, hq, fun n hn _ => ?_⟩
        · exact Finset.mem_range.mpr (hcounted d n hn).1
        · refine ⟨(hcounted d n hn).2, r, hs.pool i d r hr, ?_⟩
          rw [hal i hf]
          exact hnum
  · obtain ⟨-, -, rfl⟩ := ShardState.step_forge h
    refine ⟨hs.pool, fun i d n hn => ?_, fun j seq d hd => ?_, honce, halike⟩
    · obtain ⟨hlt, hv⟩ := hs.counted i d n hn
      exact ⟨hlt, hv.mono hsub⟩
    · rcases List.mem_cons.mp hd with heq | hd
      · cases heq
      · exact (hs.decided j seq d hd).mono fun n hn => hn.mono hsub

end Tallied

/-! ## Runs -/

/-- In one view: no old requests are installed and no new view takes effect. -/
def InOneView : ShardAction R D In → Prop
  | .node _ (.receive (.sendOld _)) | .node _ (.receive (.newView _)) => False
  | _ => True

/-- Without recovery and new views, nodes stay aligned. -/
theorem allAligned_step_inOneView (hlaw : LawfulModule cfg.ihm cfg.ohm number)
    (hal : AllAligned cfg s) (ha : InOneView a) (h : s.step cfg byz a = some t) :
    AllAligned cfg t := by
  rcases a with ⟨i, input⟩ | ⟨b, m⟩
  · obtain ⟨-, -, -, hf, p, outs, htr, rfl⟩ := ShardState.step_node h
    intro j
    dsimp only
    rw [Function.update_apply]
    split
    · refine htr.aligned hlaw (hal i) hf ?_ ?_
      · cases input with
        | receive m =>
          cases m with
          | newView m => exact ha.elim
          | _ => trivial
        | _ => trivial
      · rintro m app rfl
        exact ha.elim
    · exact hal j
  · obtain ⟨-, -, rfl⟩ := ShardState.step_forge h
    exact hal

omit [DecidableEq R] [DecidableEq D] in
/-- A set of no more than `malicious_nums` nodes is smaller than a quorum. -/
theorem card_lt_quorum (h : byz.card ≤ cfg.maliciousNums) : byz.card < cfg.quorum := by
  rw [PbftConfig.quorum]
  omega

/-- Agreement in one view, for any lawful module. -/
theorem agree_of_inOneView (hlaw : LawfulModule cfg.ihm cfg.ohm number)
    (hdig : Function.Injective cfg.getDigest) (hB : byz.card ≤ cfg.maliciousNums)
    {apps : ℕ → App}
    (hr : Reaches (ShardState.step cfg byz)
      (fun s a => InOneView a ∧ CommitsOnce cfg byz number s a)
      (ShardState.new cfg.ihm.height apps) s) : Agree s := by
  have hinv : AllAligned cfg s ∧ Tallied cfg byz number s := by
    -- the tally needs aligned nodes at each step: both go into one invariant
    refine hr.invariant (fun s => AllAligned cfg s ∧ Tallied cfg byz number s)
      ⟨allAligned_new apps, Tallied.new apps⟩ ?_
    rintro s a t ⟨hal, hs⟩ ⟨hone, hc⟩ h
    exact ⟨allAligned_step_inOneView hlaw hal hone h, hs.step hlaw hdig hal hc h⟩
  exact hinv.2.agree (card_lt_quorum hB)

/-- Agreement across views, for any lawful module. -/
theorem agree_of_newViewsAgree (hlaw : LawfulModule cfg.ihm cfg.ohm number)
    (hdig : Function.Injective cfg.getDigest) {apps : ℕ → App}
    (hr : Reaches (ShardState.step cfg ∅)
      (fun s a => NewViewsAgree cfg s a ∧ CommitsOnce cfg ∅ number s a)
      (ShardState.new cfg.ihm.height apps) s) : Agree s := by
  have hinv : Straight cfg number s ∧ AllAligned cfg s ∧ Tallied cfg ∅ number s := by
    refine hr.invariant (fun s => Straight cfg number s ∧ AllAligned cfg s ∧
      Tallied cfg ∅ number s) ⟨Straight.new apps, allAligned_new apps, Tallied.new apps⟩ ?_
    rintro s a t ⟨hst, hal, hs⟩ ⟨hv, hc⟩ h
    exact ⟨hst.step hlaw hdig hal h, (hst.allAligned_step hlaw hal h).mpr hv,
      hs.step hlaw hdig hal hc h⟩
  exact hinv.2.2.agree (card_lt_quorum (Nat.zero_le _))

/-! ## In a relay shard -/

section Relay

variable {H : Type} [DecidableEq H] (cc : ChainConfig H) (nodeNums : ℕ)
  (ipNodeTable : ℕ → ℕ → Option String) {getDigest : Option (Request H) → D}

/-- **Agreement inside one view**: with at most `malicious_nums` Byzantine nodes,
no two honest nodes commit different requests at one sequence number, in every run
in which no honest node votes to commit two requests of one height. -/
theorem agreement_in_one_view (hdig : Function.Injective getDigest)
    (hB : byz.card ≤ (relayConfig cc nodeNums ipNodeTable getDigest).maliciousNums)
    (chains : ℕ → BlockChain H)
    {s : ShardState (BlockChain H) (Option (Request H)) D Outgoing}
    (hr : Reaches (ShardState.step (relayConfig cc nodeNums ipNodeTable getDigest) byz)
      (fun s a => InOneView a ∧
        CommitsOnce (relayConfig cc nodeNums ipNodeTable getDigest) byz requestNumber s a)
      (ShardState.new (RawRelay.ihm cc).height chains) s) : Agree s :=
  agree_of_inOneView RawRelay.lawful hdig hB hr

/-- **Agreement across views**: without Byzantine nodes, no two nodes commit
different requests at one sequence number, in every run in which new views name the
number after the height they take effect at and no node votes to commit two requests
of one height. -/
theorem agreement_across_views (hdig : Function.Injective getDigest)
    (chains : ℕ → BlockChain H)
    {s : ShardState (BlockChain H) (Option (Request H)) D Outgoing}
    (hr : Reaches (ShardState.step (relayConfig cc nodeNums ipNodeTable getDigest) ∅)
      (fun s a => NewViewsAgree (relayConfig cc nodeNums ipNodeTable getDigest) s a ∧
        CommitsOnce (relayConfig cc nodeNums ipNodeTable getDigest) ∅ requestNumber s a)
      (ShardState.new (RawRelay.ihm cc).height chains) s) : Agree s :=
  agree_of_newViewsAgree RawRelay.lawful hdig hr

end Relay

/-! ### Runs of four nodes -/

/-- All commit votes so far, and the one that this step may cast, are for one
request. -/
def OneRequest (d : D) (s : ShardState App R D Out) (a : ShardAction R D In) : Prop :=
  (s.history.all fun e =>
    match e.2 with
    | .send _ (.commit v) => decide (v.digest = d)
    | _ => true) = true ∧
  (match a with
    | .node _ (.receive (.prepare m)) => decide (m.digest = d)
    | _ => true) = true

instance (d : D) (s : ShardState App R D Out) (a : ShardAction R D In) :
    Decidable (OneRequest d s a) :=
  inferInstanceAs (Decidable (_ ∧ _))

omit [DecidableEq R] in
theorem OneRequest.commitsOnce {d : D} (h : OneRequest d s a) :
    CommitsOnce cfg byz number s a := by
  obtain ⟨hall, ha⟩ := h
  rcases a with ⟨i, input⟩ | ⟨b, m⟩
  · cases input with
    | receive m =>
      cases m with
      | prepare m =>
        rintro - r hr k - - r' ⟨j, dest, v, node, hmem, hd, -⟩ -
        have hv := List.all_eq_true.mp hall _ hmem
        rw [← hd, of_decide_eq_true hv, of_decide_eq_true ha]
      | _ => trivial
    | _ => trivial
  · trivial

instance : DecidablePred (InOneView : ShardAction R D In → Prop)
  | .node _ (.receive (.sendOld _)) | .node _ (.receive (.newView _)) => .isFalse id
  | .node _ (.receive (.prePrepare _)) | .node _ (.receive (.prepare _))
  | .node _ (.receive (.commit _)) | .node _ (.receive (.requestOld _))
  | .node _ (.receive (.viewChange _)) | .node _ .nextRound | .node _ .proposeCheck
  | .node _ .proposeLock | .node _ (.proposeBroadcast _) | .node _ .proposeStage
  | .node _ .viewChangePropose | .node _ .askForRequests | .node _ (.outside _)
  | .forge _ _ => .isTrue trivial

/-- Whether two nodes have committed two requests at sequence number 1. -/
def committedAt1 (i j : ℕ) (r r' : FreeRequest)
    (s : ShardState (BlockChain FreeHash) FreeRequest FreeRequest Outgoing) : Prop :=
  (i, .committed 1 r) ∈ s.history ∧ (j, .committed 1 r') ∈ s.history

instance (i j : ℕ) (r r' : FreeRequest) : DecidablePred (committedAt1 i j r r') :=
  fun _ => inferInstanceAs (Decidable (_ ∧ _))

/-- Node 0 is Byzantine and proposes one block; nodes 1 and 2 commit it. -/
theorem agreement_in_one_view_commit :
    ∃ s, committedAt1 1 2 (emptyRequest 0 7) (emptyRequest 0 7) s ∧ Agree s := by
  have hend : ((runWith (ShardState.step fourNodes {0})
      (fun s a => InOneView a ∧ OneRequest (emptyRequest 0 7) s a) fourNodesStart
      (.forge 0 (.prePrepare ⟨emptyRequest 0 7, emptyRequest 0 7, 1⟩) ::
        deliverPrePrepare [1, 2, 3] (emptyRequest 0 7) 1 ++
        deliverPrepare [1, 2, 3] [1, 2, 3] (emptyRequest 0 7) 1 ++
        deliverCommit [1, 2] [1, 2, 3] (emptyRequest 0 7) 1)).any fun t =>
          decide (committedAt1 1 2 (emptyRequest 0 7) (emptyRequest 0 7) t)) = true := by
    decide +kernel
  obtain ⟨t, hr, ht⟩ := Reaches.exists_of_runWith hend
  refine ⟨t, ht, agreement_in_one_view fourNodesChain 4 fourNodesIP Function.injective_id
    (by decide : ({0} : Finset ℕ).card ≤ _) (fun _ => genesisChain fourNodesChain) (hr.mono ?_)⟩
  exact fun s a h => ⟨h.1, h.2.commitsOnce⟩

/-- **A leader that proposes twice**: node 0 sends two first blocks to nodes 1 and 2
and votes for both; node 1 commits the one, node 2 the other. -/
theorem agreement_in_one_view_fails :
    ¬ ∀ s, Reaches (ShardState.step fourNodes {0}) (fun _ a => InOneView a) fourNodesStart s →
      Agree s := by
  intro h
  have hend : ((runWith (ShardState.step fourNodes {0}) (fun _ a => InOneView a) fourNodesStart
      (([emptyRequest 0 7, emptyRequest 0 8].flatMap fun r =>
          [.forge 0 (.prePrepare ⟨r, r, 1⟩), .forge 0 (.prepare ⟨r, 1, some (fourNodesNode 0)⟩),
            .forge 0 (.commit ⟨r, 1, some (fourNodesNode 0)⟩)]) ++
        deliverPrePrepare [1, 2] (emptyRequest 0 7) 1 ++
        deliverPrePrepare [1, 2] (emptyRequest 0 8) 1 ++
        deliverPrepare [1, 2] [0, 1, 2] (emptyRequest 0 7) 1 ++
        deliverPrepare [1, 2] [0, 1, 2] (emptyRequest 0 8) 1 ++
        deliverCommit [1] [0, 1, 2] (emptyRequest 0 7) 1 ++
        deliverCommit [2] [0, 1, 2] (emptyRequest 0 8) 1)).any fun t =>
          decide (committedAt1 1 2 (emptyRequest 0 7) (emptyRequest 0 8) t)) = true := by
    decide +kernel
  obtain ⟨t, hr, h₁, h₂⟩ := Reaches.exists_of_runWith hend
  exact absurd (h t hr 1 2 1 _ _ h₁ h₂) (by decide)

/-- All commit the first block, then three nodes change the view. -/
theorem agreement_across_views_commit :
    ∃ s, committedAt1 0 3 (emptyRequest 0 7) (emptyRequest 0 7) s ∧ Agree s := by
  have hend : ((runWith (ShardState.step fourNodes ∅)
      (fun s a => NewViewsAgree fourNodes s a ∧ OneRequest (emptyRequest 0 7) s a)
      fourNodesStart
      (propose 0 7 ++ deliverPrePrepare [0, 1, 2, 3] (emptyRequest 0 7) 1 ++
        deliverPrepare [0, 1, 2, 3] [0, 1, 2] (emptyRequest 0 7) 1 ++
        deliverCommit [0, 1, 2, 3] [0, 1, 2] (emptyRequest 0 7) 1 ++
        timeOut [1, 2, 3] 2 ++ deliverNewView [0, 1, 2, 3] [1, 2, 3] 2)).any fun t =>
          decide (committedAt1 0 3 (emptyRequest 0 7) (emptyRequest 0 7) t)) = true := by
    decide +kernel
  obtain ⟨t, hr, ht⟩ := Reaches.exists_of_runWith hend
  refine ⟨t, ht, agreement_across_views fourNodesChain 4 fourNodesIP Function.injective_id
    (fun _ => genesisChain fourNodesChain) (hr.mono ?_)⟩
  exact fun s a h => ⟨h.1, h.2.commitsOnce⟩

/-- **A new view that forgets**: node 0 commits its block; the others, which have
voted for it, change the view and commit the block of the new leader. -/
theorem agreement_across_views_fails :
    ¬ ∀ s, Reaches (ShardState.step fourNodes ∅) (fun _ _ => True) fourNodesStart s →
      Agree s := by
  intro h
  have hend : ((runWith (ShardState.step fourNodes ∅) (fun _ _ => True) fourNodesStart
      (propose 0 7 ++ deliverPrePrepare [0, 1, 2] (emptyRequest 0 7) 1 ++
        deliverPrepare [0, 1, 2] [0, 1, 2] (emptyRequest 0 7) 1 ++
        deliverCommit [0] [0, 1, 2] (emptyRequest 0 7) 1 ++
        timeOut [1, 2, 3] 1 ++ deliverNewView [1, 2, 3] [1, 2, 3] 1 ++
        propose 1 9 ++ deliverPrePrepare [1, 2, 3] (emptyRequest 1 9) 1 ++
        deliverPrepare [1, 2, 3] [1, 2, 3] (emptyRequest 1 9) 1 ++
        deliverCommit [1] [1, 2, 3] (emptyRequest 1 9) 1)).any fun t =>
          decide (committedAt1 0 1 (emptyRequest 0 7) (emptyRequest 1 9) t)) = true := by
    decide +kernel
  obtain ⟨t, hr, h₁, h₂⟩ := Reaches.exists_of_runWith hend
  exact absurd (h t hr 0 1 1 _ _ h₁ h₂) (by decide)

end BlockEmulator
