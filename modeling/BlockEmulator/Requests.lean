import BlockEmulator.Shard

/-!
# Where requests come from

A request that a node stores was proposed by somebody, or came with old requests; a
node that answers with old requests sends what it has stored. So in a shard without
Byzantine nodes every request, stored or on its way, was proposed by a node that
runs the program, and what holds of all proposals holds of all requests
(`AllRequests`).
-/

namespace BlockEmulator

open PbftNode

variable {App R D In Out : Type}

namespace PbftNode

variable [DecidableEq D] {cfg : PbftConfig App R D In Out} {p p' : PbftNode App R D}
  {input : NodeInput R D In} {outs : List (Output R D Out)}

theorem recordOld_requestPool {n : ℕ} {rs : List R} {d : D} {r : R}
    (h : (recordOld cfg n rs p).requestPool d = some r) :
    p.requestPool d = some r ∨ cfg.getDigest r = d ∧ r ∈ rs := by
  induction rs generalizing n p with
  | nil => exact .inl h
  | cons a rs ih =>
    rcases ih h with h | ⟨hd, hr⟩
    · simp only [record, Function.update_apply] at h
      split at h
      · rename_i hd
        obtain rfl := Option.some.inj h
        exact .inr ⟨hd.symm, List.mem_cons_self⟩
      · exact .inl h
    · exact .inr ⟨hd, List.mem_cons_of_mem _ hr⟩

omit [DecidableEq D] in
theorem collectOld_getElem {n k j : ℕ} {r : R} (h : (p.collectOld n k)[j]? = some r) :
    ∃ d, p.height2Digest (n + j) = some d ∧ p.requestPool d = some r := by
  induction k generalizing n j with
  | zero => simp [collectOld] at h
  | succ k ih =>
    rw [collectOld] at h
    split at h
    · simp at h
    rename_i d hd
    split at h
    · simp at h
    rename_i a ha
    cases j with
    | zero =>
      obtain rfl : a = r := by simpa using h
      exact ⟨d, hd, ha⟩
    | succ j =>
      obtain ⟨d', hd', hr'⟩ := ih (by simpa using h)
      exact ⟨d', by rw [← hd']; congr 1; omega, hr'⟩

/-- How a node gets hold of a request. -/
def Obtained (cfg : PbftConfig App R D In Out) (p : PbftNode App R D)
    (input : NodeInput R D In) (r : R) : Prop :=
  (∃ m, input = .receive (.prePrepare m) ∧ m.requestMsg = r) ∨
  (∃ now app, input = .proposeBroadcast now ∧
    cfg.ihm.handleinPropose cfg.nodeID now p.curChain = some (r, app)) ∨
  ∃ m, input = .receive (.sendOld m) ∧ r ∈ m.oldRequest

/-- Requests are stored under their digests, when a node gets hold of them. -/
theorem Transition.requestPool (h : Transition cfg p input p' outs) {d : D} {r : R}
    (hr : p'.requestPool d = some r) :
    p.requestPool d = some r ∨ cfg.getDigest r = d ∧ Obtained cfg p input r := by
  have hrecord : ∀ n a, (p.record cfg n a).requestPool d = some r →
      p.requestPool d = some r ∨ cfg.getDigest r = d ∧ a = r := by
    intro n a hr
    simp only [record, Function.update_apply] at hr
    split at hr
    · rename_i hd
      obtain rfl := Option.some.inj hr
      exact .inr ⟨hd.symm, rfl⟩
    · exact .inl hr
  have hinstalled : ∀ m app, input = .receive (.sendOld m) →
      (p.installed cfg m app).requestPool d = some r →
      p.requestPool d = some r ∨ cfg.getDigest r = d ∧ Obtained cfg p input r := by
    intro m app hin hr
    rcases recordOld_requestPool (p := { p with curChain := app }) hr with hr | ⟨hd, hmem⟩
    · exact .inl hr
    · exact .inr ⟨hd, .inr (.inr ⟨m, hin, hmem⟩)⟩
  cases h with
  | broadcast now a app hk hprop =>
    rcases hrecord p.sequenceID a hr with hr | ⟨hd, rfl⟩
    · exact .inl hr
    · exact .inr ⟨hd, .inr (.inl ⟨now, app, rfl, hprop⟩)⟩
  | stored m =>
    rcases hrecord m.seqID _ hr with hr | ⟨hd, ha⟩
    · exact .inl hr
    · exact .inr ⟨hd, .inl ⟨m, rfl, ha⟩⟩
  | prepared m =>
    rcases hrecord m.seqID _ hr with hr | ⟨hd, ha⟩
    · exact .inl hr
    · exact .inr ⟨hd, .inl ⟨m, rfl, ha⟩⟩
  | asked m confirm =>
    refine .inl ?_
    simpa [askForRequests, endRound_eq, countCommit] using hr
  | resumed seqID =>
    refine .inl ?_
    simpa [askForRequests, endRound_eq] using hr
  | committed m confirm a app =>
    refine .inl ?_
    simpa [endRound_eq, applied] using hr
  | oldFailed m app =>
    rw [unlockAskFor_eq] at hr
    exact .inl hr
  | oldInstalled m app =>
    rw [unlockAskFor_eq] at hr
    exact hinstalled m app rfl hr
  | oldPrepared m app a =>
    rw [unlockAskFor_eq] at hr
    exact hinstalled m app rfl hr
  | oldPanicked m app => exact hinstalled m app rfl hr
  | _ => exact .inl hr

theorem recordOld_requestPool_ne_none {n : ℕ} {rs : List R} {d : D}
    (h : p.requestPool d ≠ none) : (recordOld cfg n rs p).requestPool d ≠ none := by
  induction rs generalizing n p with
  | nil => exact h
  | cons a rs ih =>
    refine ih ?_
    simp only [record, Function.update_apply]
    split
    · exact nofun
    · exact h

/-- A stored request is never taken out. -/
theorem Transition.requestPool_ne_none (h : Transition cfg p input p' outs) {d : D}
    (hd : p.requestPool d ≠ none) : p'.requestPool d ≠ none := by
  have hrecord : ∀ n a, (p.record cfg n a).requestPool d ≠ none := by
    intro n a
    simp only [record, Function.update_apply]
    split
    · exact nofun
    · exact hd
  have hinstalled : ∀ m app, (p.installed cfg m app).requestPool d ≠ none := fun m app =>
    recordOld_requestPool_ne_none (p := { p with curChain := app }) hd
  cases h with
  | broadcast now a => exact hrecord p.sequenceID a
  | stored m => exact hrecord m.seqID m.requestMsg
  | prepared m => exact hrecord m.seqID m.requestMsg
  | asked m confirm => simpa [askForRequests, endRound_eq, countCommit] using hd
  | resumed seqID => simpa [askForRequests, endRound_eq] using hd
  | committed m confirm a app => simpa [endRound_eq, applied] using hd
  | oldFailed m app =>
    rw [unlockAskFor_eq]
    exact hd
  | oldInstalled m app =>
    rw [unlockAskFor_eq]
    exact hinstalled m app
  | oldPrepared m app a =>
    rw [unlockAskFor_eq]
    exact hinstalled m app
  | oldPanicked m app => exact hinstalled m app
  | _ => exact hd

/-- A stored request stays stored, where digests tell requests apart. -/
theorem Transition.requestPool_mono (hdig : Function.Injective cfg.getDigest)
    (hfile : ∀ d r, p.requestPool d = some r → cfg.getDigest r = d)
    (h : Transition cfg p input p' outs) {d : D} {r : R} (hr : p.requestPool d = some r) :
    p'.requestPool d = some r := by
  obtain ⟨r', hr'⟩ := Option.ne_none_iff_exists'.mp
    (h.requestPool_ne_none (d := d) (by rw [hr]; exact nofun))
  rcases h.requestPool hr' with hold | ⟨hd, -⟩
  · rw [hr', ← hold, hr]
  · rw [hr', hdig (hd.trans (hfile d r hr).symm)]

/-- A node proposes what its module gives it, under its sequence number. -/
theorem Transition.prePrepare_sent (h : Transition cfg p input p' outs) {dest : Dest}
    {m : PrePrepare R D} (hm : .send dest (.prePrepare m) ∈ outs) :
    m.seqID = p.sequenceID ∧ ∃ now app,
      cfg.ihm.handleinPropose cfg.nodeID now p.curChain = some (m.requestMsg, app) := by
  cases h with
  | broadcast now r app hk hr =>
    obtain ⟨-, rfl⟩ : _ ∧ m = _ := by simpa using hm
    exact ⟨rfl, now, app, hr⟩
  | asked m confirm => simp [askForRequests] at hm
  | resumed seqID => simp [askForRequests] at hm
  | committed m confirm a app => simp at hm
  | _ => simp at hm

/-- A node answers with the requests it has stored. -/
theorem Transition.sendOld_sent (h : Transition cfg p input p' outs) {dest : Dest}
    {m : SendOldMessage R} (hm : .send dest (.sendOld m) ∈ outs) {j : ℕ} {r : R}
    (hj : m.oldRequest[j]? = some r) :
    ∃ d, p.height2Digest (m.seqStartHeight + j) = some d ∧ p.requestPool d = some r := by
  cases h with
  | answered a sender hmain hs hne =>
    obtain ⟨-, rfl⟩ : _ ∧ m = _ := by simpa using hm
    exact collectOld_getElem hj
  | asked m confirm => simp [askForRequests] at hm
  | resumed seqID => simp [askForRequests] at hm
  | committed m confirm a app => simp at hm
  | _ => simp at hm

end PbftNode

/-! ## All requests of a shard -/

variable [DecidableEq R] [DecidableEq D] {cfg : PbftConfig App R D In Out}
  {s t : ShardState App R D Out} {a : ShardAction R D In} {G : R → Prop}

/-- All requests of a shard, stored or on their way, are good. -/
structure AllRequests (G : R → Prop) (s : ShardState App R D Out) : Prop where
  /-- those that nodes have stored -/
  stored : ∀ i d r, (s.nodes i).requestPool d = some r → G r
  /-- those that are proposed -/
  proposed : ∀ k dest m, (k, .send dest (.prePrepare m)) ∈ s.history → G m.requestMsg
  /-- those that are sent as old requests -/
  sent : ∀ k dest m, (k, .send dest (.sendOld m)) ∈ s.history → ∀ r ∈ m.oldRequest, G r

namespace AllRequests

omit [DecidableEq R] [DecidableEq D] in
theorem new (height : App → ℕ) (apps : ℕ → App) :
    AllRequests G (ShardState.new height apps : ShardState App R D Out) where
  stored i d r h := by cases h
  proposed k dest m h := by cases h
  sent k dest m h := by cases h

/-- What a node gets hold of is good, where its own proposals are. -/
theorem obtained (hs : AllRequests G s) {i : ℕ} {input : NodeInput R D In}
    (harr : s.arrives (cfg.ipOf i) input = true)
    (hprop : ∀ now r app,
      cfg.ihm.handleinPropose i now (s.nodes i).curChain = some (r, app) → G r)
    {r : R} (h : Obtained (cfg.at i) (s.nodes i) input r) : G r := by
  rcases h with ⟨m, rfl, rfl⟩ | ⟨now, app, -, hr⟩ | ⟨m, rfl, hr⟩
  · obtain ⟨k, dest, hsent⟩ := ShardState.arrives_receive harr
    exact hs.proposed k dest m hsent
  · exact hprop now r app hr
  · obtain ⟨k, dest, hsent⟩ := ShardState.arrives_receive harr
    exact hs.sent k dest m hsent r hr

/-- **Every step keeps all requests good**, in a shard without Byzantine nodes whose
proposals are. -/
theorem step (hs : AllRequests G s)
    (hprop : ∀ i < cfg.nodeNums, ∀ now r app,
      cfg.ihm.handleinPropose i now (s.nodes i).curChain = some (r, app) → G r)
    (h : s.step cfg ∅ a = some t) : AllRequests G t := by
  rcases a with ⟨i, input⟩ | ⟨b, m⟩
  · obtain ⟨hi, -, harr, -, p, outs, htr, rfl⟩ := ShardState.step_node h
    refine ⟨fun j d r hr => ?_, fun k dest m hm => ?_, fun k dest m hm r hr => ?_⟩
    · dsimp only at hr
      rw [Function.update_apply] at hr
      split at hr
      · rcases htr.requestPool hr with hr | ⟨-, hr⟩
        · exact hs.stored i d r hr
        · exact hs.obtained harr (hprop i hi) hr
      · exact hs.stored j d r hr
    · rcases ShardState.mem_history_node hm with hm | ⟨-, hm⟩
      · exact hs.proposed k dest m hm
      · obtain ⟨-, now, app, hr⟩ := htr.prePrepare_sent hm
        exact hprop i hi now _ app hr
    · rcases ShardState.mem_history_node hm with hm | ⟨-, hm⟩
      · exact hs.sent k dest m hm r hr
      · obtain ⟨j, hj, hget⟩ := List.getElem_of_mem hr
        obtain ⟨d, -, hr⟩ := htr.sendOld_sent hm
          (show m.oldRequest[j]? = some r by rw [List.getElem?_eq_getElem hj, hget])
        exact hs.stored i d r hr
  · obtain ⟨hb, -, -⟩ := ShardState.step_forge h
    exact absurd hb (Finset.notMem_empty b)

end AllRequests

end BlockEmulator
