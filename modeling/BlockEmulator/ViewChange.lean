import BlockEmulator.RelayShard
import BlockEmulator.StepSystem

/-!
# View-change quorums

A node collects requests for a new view, and announcements of one, by the view and
the sequence number they name and by the sender they name. It acts when exactly
`2f+1` senders have come together. Nobody checks that the senders are members of the
shard, the announced view is computed from the local one, and the view that takes
effect is cut to 32 bits.

* `ViewRun` — a node with what it has received, the views it has stepped into and
  the announcements it has sent.
* `Collected` — the two maps hold senders of messages received; every step keeps it.
* `view_quorum` — when every quorum consists of members and asks for the next view,
  the node steps into a view only after `2f+1` members announced it, and announces
  only what its quorum asked for.
-/

namespace BlockEmulator

open StepSystem PbftNode

variable {App R D In Out : Type}

/-! ## What a node has received -/

/-- The sender of an announcement of a view. -/
def announces (view : ℤ) : Message R D → Option ℕ
  | .newView m => if m.nextView = view then some m.fromNode else none
  | _ => none

/-- The sender of a request for a view. -/
def asksFor (view : ℤ) : Message R D → Option ℕ
  | .viewChange m => if m.nextView = view then some m.fromNode else none
  | _ => none

/-- The announcement in an output. -/
def announcement : Output R D Out → Option NewViewMsg
  | .send _ (.newView m) => some m
  | _ => none

/-- A node, with the history of its view changes. -/
structure ViewRun (App R D : Type) where
  /-- the node -/
  node : PbftNode App R D
  /-- the messages handled -/
  received : List (Message R D)
  /-- the views stepped into -/
  entered : List ℤ
  /-- the announcements sent -/
  announced : List NewViewMsg

namespace ViewRun

/-- Everybody who has announced a view. -/
def announcers (run : ViewRun App R D) (view : ℤ) : Finset ℕ :=
  (run.received.filterMap (announces view)).toFinset

/-- Everybody who has asked for a view. -/
def askers (run : ViewRun App R D) (view : ℤ) : Finset ℕ :=
  (run.received.filterMap (asksFor view)).toFinset

variable (cfg : PbftConfig App R D In Out)

/-- A node just started. -/
def new (app : App) : ViewRun App R D :=
  ⟨PbftNode.new cfg.ihm.height app, [], [], []⟩

/-- What an input adds to the messages handled. -/
def receive (run : ViewRun App R D) : NodeInput R D In → List (Message R D)
  | .receive m => m :: run.received
  | _ => run.received

/-- Whether an input makes the node step into a view. -/
def stepsInto (p : PbftNode App R D) : NodeInput R D In → Bool
  | .receive (.newView m) => decide (p.completesView cfg m)
  | _ => false

/-- One step of the node, with its history. -/
def step [DecidableEq D] (run : ViewRun App R D) (input : NodeInput R D In) :
    Option (ViewRun App R D) :=
  (run.node.nodeStep cfg input).map fun r =>
    { node := r.1
      received := run.receive input
      entered := if stepsInto cfg run.node input then r.1.view :: run.entered else run.entered
      announced := r.2.filterMap announcement ++ run.announced }

/-! ## What the quorums are to guarantee -/

/-- Every view stepped into was announced by a quorum of members of the shard. -/
def EnteredByMembers (run : ViewRun App R D) : Prop :=
  ∀ view ∈ run.entered,
    cfg.quorum ≤ ((run.announcers view).filter (· < cfg.nodeNums)).card

/-- Every announcement names the view that a quorum asked for. -/
def AnnouncedAsAsked (run : ViewRun App R D) : Prop :=
  ∀ m ∈ run.announced, cfg.quorum ≤ (run.askers m.nextView).card

/-- The condition on a step: a quorum of announcements is one of members and names
a view of 32 bits; a quorum of requests asks for the view after the node's own. -/
def MembersAskNext (run : ViewRun App R D) : NodeInput R D In → Prop
  | .receive (.newView m) => run.node.completesView cfg m →
      (∀ n ∈ insert m.fromNode (run.node.newViewMap ⟨m.nextView, m.newSeqID⟩),
        n < cfg.nodeNums) ∧ Int.bmod m.nextView (2 ^ 32) = m.nextView
  | .receive (.viewChange m) => run.node.completesChange cfg m →
      m.nextView = run.node.viewAfter cfg
  | _ => True

/-- The maps of the node hold senders of messages received. -/
structure Collected (run : ViewRun App R D) : Prop where
  /-- who has announced a view -/
  views : ∀ vc n, n ∈ run.node.newViewMap vc → n ∈ run.announcers vc.nextView
  /-- who has asked for a view -/
  changes : ∀ vc n, n ∈ run.node.viewChangeMap vc → n ∈ run.askers vc.nextView

end ViewRun

/-! ## What a step does to the two maps -/

namespace PbftNode

variable [DecidableEq D] {cfg : PbftConfig App R D In Out} {p p' : PbftNode App R D}
  {input : NodeInput R D In} {outs : List (Output R D Out)}

/-- A step leaves the two maps alone, or counts a message in one of them. -/
theorem Transition.viewMaps (h : Transition cfg p input p' outs) :
    (p'.newViewMap = p.newViewMap ∨
      ∃ m, input = .receive (.newView m) ∧ p'.newViewMap = (p.countView m).newViewMap) ∧
    (p'.viewChangeMap = p.viewChangeMap ∨
      ∃ m, input = .receive (.viewChange m) ∧
        p'.viewChangeMap = (p.countChange m).viewChangeMap) := by
  cases h with
  | viewCounted m => exact ⟨.inr ⟨m, rfl, rfl⟩, .inl rfl⟩
  | viewEntered m => exact ⟨.inr ⟨m, rfl, rfl⟩, .inl rfl⟩
  | changeCounted m => exact ⟨.inl rfl, .inr ⟨m, rfl, rfl⟩⟩
  | changeAnnounced m => exact ⟨.inl rfl, .inr ⟨m, rfl, rfl⟩⟩
  -- what ends a round or asks for requests has nothing to do with views
  | asked m confirm => simp [askForRequests, endRound_eq, countCommit]
  | resumed seqID => simp [askForRequests, endRound_eq]
  | committed m confirm r app =>
    rw [endRound_eq]
    exact ⟨.inl rfl, .inl rfl⟩
  | oldFailed m app =>
    rw [unlockAskFor_eq]
    exact ⟨.inl rfl, .inl rfl⟩
  | oldInstalled m app =>
    rw [unlockAskFor_eq, installed_eq]
    exact ⟨.inl rfl, .inl rfl⟩
  | oldPrepared m app a =>
    rw [unlockAskFor_eq, installed_eq]
    exact ⟨.inl rfl, .inl rfl⟩
  | oldPanicked m app =>
    rw [installed_eq]
    exact ⟨.inl rfl, .inl rfl⟩
  | _ => exact ⟨.inl rfl, .inl rfl⟩

/-- Who is in a map of senders after one more of them is entered. -/
theorem mem_update_insert {f : ViewChangeData → Finset ℕ} {vc vc' : ViewChangeData} {n n' : ℕ}
    (hn : n ∈ Function.update f vc' (insert n' (f vc')) vc) : n ∈ f vc ∨ vc = vc' ∧ n = n' := by
  rw [Function.update_apply] at hn
  split at hn
  · rename_i hvc
    rcases Finset.mem_insert.mp hn with hn | hn
    · exact .inr ⟨hvc, hn⟩
    · exact .inl (hvc ▸ hn)
  · exact .inl hn

/-- A sender is entered into the map of announcements when its message is handled. -/
theorem Transition.newViewMap (h : Transition cfg p input p' outs) {vc : ViewChangeData}
    {n : ℕ} (hn : n ∈ p'.newViewMap vc) :
    n ∈ p.newViewMap vc ∨
      ∃ m, input = .receive (.newView m) ∧ vc = ⟨m.nextView, m.newSeqID⟩ ∧ n = m.fromNode := by
  rcases h.viewMaps.1 with hsame | ⟨m, hm, hcount⟩
  · exact .inl (hsame ▸ hn)
  · rw [hcount] at hn
    exact (mem_update_insert hn).imp_right fun hnew => ⟨m, hm, hnew⟩

/-- A sender is entered into the map of requests when its message is handled. -/
theorem Transition.viewChangeMap (h : Transition cfg p input p' outs) {vc : ViewChangeData}
    {n : ℕ} (hn : n ∈ p'.viewChangeMap vc) :
    n ∈ p.viewChangeMap vc ∨
      ∃ m, input = .receive (.viewChange m) ∧ vc = ⟨m.nextView, m.seqID⟩ ∧ n = m.fromNode := by
  rcases h.viewMaps.2 with hsame | ⟨m, hm, hcount⟩
  · exact .inl (hsame ▸ hn)
  · rw [hcount] at hn
    exact (mem_update_insert hn).imp_right fun hnew => ⟨m, hm, hnew⟩

/-- A node announces the view after its own, when requests make a quorum. -/
theorem Transition.newView_sent (h : Transition cfg p input p' outs) {m : NewViewMsg}
    (hm : m ∈ outs.filterMap announcement) :
    m.nextView = p.viewAfter cfg ∧
      ∃ vc, input = .receive (.viewChange vc) ∧ p.completesChange cfg vc ∧
        p' = p.countChange vc := by
  cases h with
  | changeAnnounced vc hq =>
    obtain rfl : m = ⟨p.view, p.viewAfter cfg, p.seqAsInt, cfg.nodeID⟩ := by
      simpa [announcement] using hm
    exact ⟨rfl, vc, rfl, hq, rfl⟩
  | committed m confirm r app outs =>
    obtain ⟨o, ho, hout⟩ := List.mem_filterMap.mp hm
    rcases List.mem_cons.mp ho with rfl | ho
    · cases hout
    · obtain ⟨x, -, rfl⟩ := List.mem_map.mp ho
      cases hout
  | asked m confirm => simp [askForRequests, announcement] at hm
  | resumed seqID => simp [askForRequests, announcement] at hm
  | _ => simp [announcement] at hm

/-- Announcements that make a quorum set the view. -/
theorem Transition.view_entered {m : NewViewMsg}
    (h : Transition cfg p (.receive (.newView m)) p' outs) (hc : p.completesView cfg m) :
    p' = p.entered m := by
  cases h with
  | idle m hm => cases hm
  | panicked input hm => cases hm _ rfl
  | moved input proposers h => rcases h with ⟨h, -⟩ | h <;> cases h
  | viewCounted m hq => exact absurd hc hq
  | viewEntered m hq => rfl

end PbftNode

/-! ## Runs -/

namespace ViewRun

variable [DecidableEq D] {cfg : PbftConfig App R D In Out} {run run' : ViewRun App R D}
  {input : NodeInput R D In}

/-- Inversion of a step. -/
theorem step_eq_some (h : run.step cfg input = some run') :
    ∃ p outs, Transition cfg run.node input p outs ∧
      run' = { node := p
               received := run.receive input
               entered := if stepsInto cfg run.node input then p.view :: run.entered
                 else run.entered
               announced := outs.filterMap announcement ++ run.announced } := by
  obtain ⟨⟨p, outs⟩, hr, rfl⟩ := Option.map_eq_some_iff.mp h
  exact ⟨p, outs, (nodeStep_transition hr).2, rfl⟩

omit [DecidableEq D] in
/-- Messages handled are never forgotten. -/
theorem received_subset (run : ViewRun App R D) (input : NodeInput R D In) :
    run.received ⊆ run.receive input := by
  intro m hm
  cases input with
  | receive m' => exact List.mem_cons_of_mem _ hm
  | _ => exact hm

/-- Neither is who sent them. -/
theorem senders_mono (h : run.step cfg input = some run') (f : Message R D → Option ℕ) :
    (run.received.filterMap f).toFinset ⊆ (run'.received.filterMap f).toFinset := by
  obtain ⟨p, outs, -, rfl⟩ := step_eq_some h
  intro n hn
  obtain ⟨m, hm, hmn⟩ := List.mem_filterMap.mp (List.mem_toFinset.mp hn)
  exact List.mem_toFinset.mpr (List.mem_filterMap.mpr
    ⟨m, run.received_subset input hm, hmn⟩)

theorem announcers_mono (h : run.step cfg input = some run') (view : ℤ) :
    run.announcers view ⊆ run'.announcers view := senders_mono h (announces view)

theorem askers_mono (h : run.step cfg input = some run') (view : ℤ) :
    run.askers view ⊆ run'.askers view := senders_mono h (asksFor view)

/-- **Every step keeps the two maps within what was received.** -/
theorem Collected.step (hc : run.Collected) (h : run.step cfg input = some run') :
    run'.Collected := by
  have hann := announcers_mono h
  have hask := askers_mono h
  obtain ⟨p, outs, htr, rfl⟩ := step_eq_some h
  refine ⟨fun vc n hn => ?_, fun vc n hn => ?_⟩
  · rcases htr.newViewMap hn with hn | ⟨m, rfl, rfl, rfl⟩
    · exact hann _ (hc.views vc n hn)
    · refine List.mem_toFinset.mpr (List.mem_filterMap.mpr
        ⟨.newView m, List.mem_cons_self, ?_⟩)
      simp [announces]
  · rcases htr.viewChangeMap hn with hn | ⟨m, rfl, rfl, rfl⟩
    · exact hask _ (hc.changes vc n hn)
    · refine List.mem_toFinset.mpr (List.mem_filterMap.mpr
        ⟨.viewChange m, List.mem_cons_self, ?_⟩)
      simp [asksFor]

/-- A step that meets the condition enters a view only behind its members. -/
theorem EnteredByMembers.step (hc : run.Collected) (he : EnteredByMembers cfg run)
    (hok : MembersAskNext cfg run input) (h : run.step cfg input = some run') :
    EnteredByMembers cfg run' := by
  have hann := announcers_mono h
  have hc' := hc.step h
  intro view hview
  have hold : view ∈ run.entered →
      cfg.quorum ≤ ((run'.announcers view).filter (· < cfg.nodeNums)).card := fun hv =>
    (he view hv).trans (Finset.card_le_card (Finset.filter_subset_filter _ (hann view)))
  obtain ⟨p, outs, htr, rfl⟩ := step_eq_some h
  by_cases hs : stepsInto cfg run.node input = true
  · simp only [hs, if_true, List.mem_cons] at hview
    rcases hview with rfl | hview
    · -- the view entered now: its quorum is in the map after the step
      cases input with
      | receive m =>
        cases m with
        | newView m =>
          have hq : run.node.completesView cfg m := of_decide_eq_true hs
          obtain ⟨hmem, hview⟩ := hok hq
          obtain rfl := htr.view_entered hq
          refine (le_of_eq (show cfg.quorum = _ from hq.symm)).trans
            (Finset.card_le_card fun n hn => ?_)
          have hin := hc'.views ⟨m.nextView, m.newSeqID⟩ n (by
            simpa [PbftNode.entered, countView] using Finset.mem_insert.mp hn)
          rw [show (run.node.entered m).view = m.nextView from hview]
          exact Finset.mem_filter.mpr ⟨hin, hmem n hn⟩
        | _ => cases hs
      | _ => cases hs
    · exact hold hview
  · simp only [hs, if_false, Bool.false_eq_true] at hview
    exact hold hview

/-- A step that meets the condition announces what its quorum asked for. -/
theorem AnnouncedAsAsked.step (hc : run.Collected) (ha : AnnouncedAsAsked cfg run)
    (hok : MembersAskNext cfg run input) (h : run.step cfg input = some run') :
    AnnouncedAsAsked cfg run' := by
  have hask := askers_mono h
  have hc' := hc.step h
  intro m hm
  obtain ⟨p, outs, htr, rfl⟩ := step_eq_some h
  rcases List.mem_append.mp hm with hm | hm
  · obtain ⟨hview, vc, rfl, hq, rfl⟩ := htr.newView_sent hm
    have hnext : vc.nextView = run.node.viewAfter cfg := hok hq
    refine (le_of_eq (show cfg.quorum = _ from hq.symm)).trans
      (Finset.card_le_card fun n hn => ?_)
    rw [hview, ← hnext]
    exact hc'.changes ⟨vc.nextView, vc.seqID⟩ n (by
      simpa [countChange] using Finset.mem_insert.mp hn)
  · exact (ha m hm).trans (Finset.card_le_card (hask m.nextView))

/-- **View-change quorums**: in every run whose quorums are of members and ask for
the next view, a node steps only into views that `2f+1` members have announced, and
announces only views that `2f+1` senders have asked for. -/
theorem view_quorum {app : App} (hr : Reaches (ViewRun.step cfg) (MembersAskNext cfg)
    (ViewRun.new cfg app) run) :
    EnteredByMembers cfg run ∧ AnnouncedAsAsked cfg run := by
  have hinv : run.Collected ∧ EnteredByMembers cfg run ∧ AnnouncedAsAsked cfg run := by
    refine hr.invariant (fun run => run.Collected ∧ EnteredByMembers cfg run ∧
      AnnouncedAsAsked cfg run) ⟨?_, ?_, ?_⟩ ?_
    · exact ⟨fun _ _ h => absurd h (Finset.notMem_empty _),
        fun _ _ h => absurd h (Finset.notMem_empty _)⟩
    · exact fun _ h => absurd h List.not_mem_nil
    · exact fun _ h => absurd h List.not_mem_nil
    · rintro run input run' ⟨hc, he, ha⟩ hok h
      exact ⟨hc.step h, he.step hc hok h, ha.step hc hok h⟩
  exact hinv.2

/-! ## Four nodes -/

instance : DecidablePred (EnteredByMembers cfg : ViewRun App R D → Prop) :=
  fun run => inferInstanceAs (Decidable (∀ view ∈ run.entered, _))

instance : DecidablePred (AnnouncedAsAsked cfg : ViewRun App R D → Prop) :=
  fun run => inferInstanceAs (Decidable (∀ m ∈ run.announced, _))

instance (run : ViewRun App R D) : ∀ input, Decidable (MembersAskNext cfg run input)
  | .receive (.newView _) | .receive (.viewChange _) => inferInstanceAs (Decidable (_ → _))
  | .receive (.prePrepare _) | .receive (.prepare _) | .receive (.commit _)
  | .receive (.requestOld _) | .receive (.sendOld _)
  | .nextRound | .proposeCheck | .proposeLock | .proposeBroadcast _ | .proposeStage
  | .viewChangePropose | .askForRequests | .outside _ => .isTrue trivial

/-- A node of `fourNodes`, just started. -/
def sampleRun : ViewRun (BlockChain FreeHash) FreeRequest FreeRequest :=
  ViewRun.new fourNodes (genesisChain fourNodesChain)

/-- A request for a view and an announcement of one, at sequence number 1. -/
def change (view : ℤ) (n : ℕ) : NodeInput FreeRequest FreeRequest OutsideMessage :=
  .receive (.viewChange ⟨0, view, 1, n⟩)

/-- The announcement of a view at sequence number 1. -/
def newView (view : ℤ) (n : ℕ) : NodeInput FreeRequest FreeRequest OutsideMessage :=
  .receive (.newView ⟨0, view, 1, n⟩)

/-- Three members ask for view 1 and announce it. -/
theorem view_quorum_members :
    ∃ run, (run.entered = [1] ∧ run.announced.length = 1) ∧ EnteredByMembers fourNodes run ∧
      AnnouncedAsAsked fourNodes run := by
  have hend : ((runWith (ViewRun.step fourNodes) (MembersAskNext fourNodes) sampleRun
      [change 1 1, change 1 2, change 1 2, change 1 3, newView 1 1, newView 1 2,
        newView 1 3]).any fun run =>
          decide (run.entered = [1] ∧ run.announced.length = 1)) = true := by
    decide +kernel
  obtain ⟨run, hr, hp⟩ := Reaches.exists_of_runWith hend
  exact ⟨run, hp, view_quorum hr⟩

/-- **Strangers change the view**: three announcements under numbers that no node has
make a node step into view 1. And a quorum that asks for view 3 gets view 1
announced. -/
theorem view_quorum_fails :
    (∃ run, Reaches (ViewRun.step fourNodes) (fun _ _ => True) sampleRun run ∧
      ¬ EnteredByMembers fourNodes run) ∧
    ∃ run, Reaches (ViewRun.step fourNodes) (fun _ _ => True) sampleRun run ∧
      ¬ AnnouncedAsAsked fourNodes run := by
  refine ⟨?_, ?_⟩
  · exact Reaches.exists_of_runWith
      (show ((runWith (ViewRun.step fourNodes) (fun _ _ => True) sampleRun
        [newView 1 100, newView 1 101, newView 1 102]).any fun run =>
          decide (¬ EnteredByMembers fourNodes run)) = true by decide +kernel)
  · exact Reaches.exists_of_runWith
      (show ((runWith (ViewRun.step fourNodes) (fun _ _ => True) sampleRun
        [change 3 1, change 3 2, change 3 3]).any fun run =>
          decide (¬ AnnouncedAsAsked fourNodes run)) = true by decide +kernel)

end ViewRun

end BlockEmulator
