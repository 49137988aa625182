import BlockEmulator.PartitionClpa
import Mathlib.Algebra.BigOperators.Ring.Finset

/-!
# What CLPA counts

`ComputeEdges2Shard` counts the edges that touch each shard and those that cross;
`changeShardRecompute` keeps these counts up with one move. The edges behind the counts are
those that `AddEdge` has added (`Graph.Holds`).

* `computeEdges2Shard_eq` — the count from scratch is right.
* `visit_cases` — **what a visit can do**: nothing, or one move to a shard of a neighbour.
* `move_eq` — after a move, the counts are right up to the loops at the vertex.
* `bookkeeping_exact` — **without loops a count from scratch changes nothing**, after every
  visit of a run.
-/

namespace BlockEmulator

namespace Partition

open Counters LabelledGraph

/-! ## The edges of a graph -/

namespace Graph

/-- A graph holds some edges: its adjacency lists are their neighbours. -/
structure Holds (g : Graph) (edges : List (Vertex × Vertex)) : Prop where
  /-- the lists -/
  adjacent : ∀ v, g.adjacent v = neighbours edges v
  /-- the pairs over all lists, in some order -/
  pairs : g.pairs.Perm (darts edges)

theorem adjacent_addDart (g : Graph) (u v w : Vertex) :
    (g.addDart u v).adjacent w = if w = u then g.adjacent u ++ [v] else g.adjacent w := by
  rw [addDart, adjacent]
  dsimp only
  by_cases hw : w = u
  · rw [if_pos hw, hw, AList.lookup_insert, Option.getD_some]
  · rw [if_neg hw, AList.lookup_insert_ne hw, adjacent]

/-- One more entry in one of the lists. -/
theorem pairs_addDart (g : Graph) (u v : Vertex) :
    (g.addDart u v).pairs.Perm (g.pairs ++ [(u, v)]) := by
  rw [addDart, pairs, pairs, AList.entries_insert, List.flatMap_cons]
  cases hlist : g.edgeSet.lookup u with
  | none =>
    have hadj : g.adjacent u = [] := by rw [adjacent, hlist, Option.getD_none]
    rw [hadj, List.kerase_of_notMem_keys fun h => AList.lookup_eq_none.mp hlist h]
    exact List.perm_append_comm
  | some l =>
    have hadj : g.adjacent u = l := by rw [adjacent, hlist, Option.getD_some]
    have hkey : u ∈ g.edgeSet.entries.keys := AList.lookup_isSome.mp (by rw [hlist]; rfl)
    obtain ⟨l', l₁, l₂, -, hentries, hkerase⟩ := List.exists_of_kerase hkey
    obtain rfl : l' = l := by
      have hlookup : g.edgeSet.lookup u = some l' :=
        AList.mem_lookup_iff.mpr (by rw [hentries]; simp)
      exact Option.some.inj (hlookup.symm.trans hlist)
    -- the list moves to the front, with its new entry behind it
    rw [hadj, hkerase, hentries]
    simp only [List.map_append, List.map_cons, List.map_nil, List.flatMap_append,
      List.flatMap_cons]
    rw [List.perm_iff_count]
    intro d
    simp only [List.count_append]
    omega

/-- **What `AddEdge` adds**, whatever vertices are there. -/
theorem Holds.addEdge {g : Graph} {edges : List (Vertex × Vertex)} (h : g.Holds edges)
    (u v : Vertex) : (g.addEdge u v).Holds (edges ++ [(u, v)]) := by
  have hset : ∀ (g : Graph) s, ({ g with vertexSet := s } : Graph).adjacent = g.adjacent ∧
      ({ g with vertexSet := s } : Graph).pairs = g.pairs := fun _ _ => ⟨rfl, rfl⟩
  obtain ⟨s, hs⟩ : ∃ s, g.addEdge u v =
      (({ g with vertexSet := s } : Graph).addDart u v).addDart v u := by
    simp only [Graph.addEdge, Graph.addVertex]
    split_ifs
    · exact ⟨_, rfl⟩
    · exact ⟨_, rfl⟩
    · exact ⟨_, rfl⟩
    · exact ⟨_, rfl⟩
  rw [hs]
  refine ⟨fun w => ?_, ?_⟩
  · rw [adjacent_addDart, adjacent_addDart, adjacent_addDart, (hset g s).1, neighbours_append]
    simp only [h.adjacent]
    by_cases hu : w = u
    · by_cases hv : w = v
      · subst hu hv
        simp
      · have hv' : v ≠ w := fun h => hv h.symm
        subst hu
        simp [hv, hv']
    · have hu' : u ≠ w := fun h => hu h.symm
      by_cases hv : w = v
      · subst hv
        simp [hu, hu']
      · have hv' : v ≠ w := fun h => hv h.symm
        simp [hu, hv, hu', hv']
  · refine (pairs_addDart _ _ _).trans (((pairs_addDart _ _ _).append_right _).trans ?_)
    rw [(hset g s).2, darts_append, List.append_assoc]
    exact h.pairs.append_right _

theorem holds_empty : Graph.empty.Holds [] := ⟨fun _ => rfl, .refl _⟩

theorem Holds.addVertex {g : Graph} {edges : List (Vertex × Vertex)} (h : g.Holds edges)
    (v : Vertex) : (g.addVertex v).Holds edges := ⟨h.adjacent, h.pairs⟩

/-- **The graph of some edges** holds them. -/
theorem holds_ofEdges (edges : List (Vertex × Vertex)) : (Graph.ofEdges edges).Holds edges := by
  induction edges using List.reverseRecOn with
  | nil => exact holds_empty
  | append_singleton edges e ih =>
    rw [Graph.ofEdges, List.foldl_append]
    exact ih.addEdge e.1 e.2

end Graph

namespace CLPAState

variable {F : Type} {cs : CLPAState F} {edges : List (Vertex × Vertex)} {v : Vertex}

/-! ## Counting from scratch -/

/-- The state with the right counts of some edges. -/
def counted (cs : CLPAState F) (edges : List (Vertex × Vertex)) : CLPAState F :=
  { cs with
    edges2Shard := tally cs.shardNum fun k => touching cs.label edges k
    crossShardEdgeNum := cut cs.label edges
    minEdges2Shard := minFrom maxInt (tally cs.shardNum fun k => touching cs.label edges k) }

/-- The ends of all edges have a label below `ShardNum`. -/
def InRange (cs : CLPAState F) (edges : List (Vertex × Vertex)) : Prop :=
  ∀ e ∈ edges, cs.label e.1 < cs.shardNum ∧ cs.label e.2 < cs.shardNum

theorem InRange.of_mem_neighbours (h : cs.InRange edges) {u : Vertex}
    (hu : u ∈ neighbours edges v) : cs.label u < cs.shardNum ∧ cs.label v < cs.shardNum := by
  obtain ⟨e, he, ⟨rfl, rfl⟩ | ⟨rfl, rfl⟩⟩ := mem_neighbours.mp hu
  · exact (h e he).symm
  · exact h e he

theorem foldlM_countPair {n : ℕ} {lab : Vertex → ℕ} (ds : List (Vertex × Vertex))
    (h : ∀ d ∈ ds, lab d.2 < n) (f g : ℕ → ℤ) :
    ds.foldlM (countPair lab) (tally n f, tally n g) =
      some (tally n fun k => f k + crossInto lab ds k, tally n fun k => g k + innerInto lab ds k) := by
  induction ds generalizing f g with
  | nil => simp [crossInto, innerInto]
  | cons d ds ih =>
    rw [List.forall_mem_cons] at h
    rw [List.foldlM_cons, countPair]
    by_cases heq : lab d.1 = lab d.2
    · rw [if_neg (not_not.mpr heq), addAt_tally h.1]
      refine (ih h.2 _ _).trans (congrArg some (Prod.ext ?_ ?_))
      · refine tally_congr fun k _ => ?_
        rw [crossInto_cons, if_neg fun hh => hh.1 heq]
        rfl
      · refine tally_congr fun k _ => ?_
        simp only [innerInto_cons, heq, true_and, eq_comm, Nat.cast_add, Nat.cast_ite, Nat.cast_one,
          Nat.cast_zero]
        ring
    · rw [if_pos heq, addAt_tally h.1]
      refine (ih h.2 _ _).trans (congrArg some (Prod.ext ?_ ?_))
      · refine tally_congr fun k _ => ?_
        simp only [crossInto_cons, ne_eq, heq, not_false_eq_true, true_and, eq_comm, Nat.cast_add,
          Nat.cast_ite, Nat.cast_one, Nat.cast_zero]
        ring
      · refine tally_congr fun k _ => ?_
        rw [innerInto_cons, if_neg fun hh => heq hh.1]
        rfl

/-- **The count from scratch** is right, for every labelling that is in range. -/
theorem computeEdges2Shard_eq (cs : CLPAState F) (hg : cs.netGraph.Holds edges)
    (hrange : cs.InRange edges) :
    cs.computeEdges2Shard = some (cs.counted edges) := by
  have hcross : ∀ k, crossInto cs.label cs.netGraph.pairs k =
      crossInto cs.label (darts edges) k := fun k => hg.pairs.countP_eq _
  have hinner : ∀ k, innerInto cs.label cs.netGraph.pairs k = innerInto cs.label (darts edges) k :=
    fun k => hg.pairs.countP_eq _
  have hlab : ∀ d ∈ cs.netGraph.pairs, cs.label d.2 < cs.shardNum := by
    rintro ⟨u, w⟩ hd
    rcases mem_darts.mp (hg.pairs.mem_iff.mp hd) with he | he
    · exact (hrange _ he).2
    · exact (hrange _ he).1
  rw [computeEdges2Shard, replicate_eq_tally, foldlM_countPair _ hlab, Option.map_some]
  have htally : List.zipWith (fun e i : ℤ => e + i / 2)
      (tally cs.shardNum fun k => 0 + crossInto cs.label cs.netGraph.pairs k)
      (tally cs.shardNum fun k => 0 + innerInto cs.label cs.netGraph.pairs k) =
        tally cs.shardNum fun k => touching cs.label edges k := by
    rw [zipWith_tally]
    refine tally_congr fun k _ => ?_
    rw [touching_eq, hcross, hinner]
    push_cast
    omega
  have hsum : (tally cs.shardNum fun k =>
      0 + (crossInto cs.label cs.netGraph.pairs k : ℤ)).sum / 2 = cut cs.label edges := by
    have htwo := sum_crossInto hrange
    rw [sum_tally]
    simp only [zero_add, hcross]
    rw [← Nat.cast_sum, htwo]
    push_cast
    omega
  rw [finishCount, counted]
  dsimp only
  rw [htally, hsum]

/-! ## One move -/

theorem foldlM_recomputeNeighbour {n new old : ℕ} (hnew : new < n) (hold : old < n)
    (xs : List ℕ) (f : ℕ → ℤ) (c : ℤ) :
    xs.foldlM (recomputeNeighbour new old) (tally n f, c) =
      some (tally n fun k => f k + (xs.map (touchDelta new old k)).sum,
        c + (xs.map (cutDelta new old)).sum) := by
  induction xs generalizing f c with
  | nil => simp
  | cons x xs ih =>
    rw [List.foldlM_cons]
    have hone : recomputeNeighbour new old (tally n f, c) x =
        some (tally n fun k => f k + touchDelta new old k x, c + cutDelta new old x) := by
      rw [recomputeNeighbour]
      simp only [touchDelta, cutDelta]
      split_ifs
      · rw [addAt_tally hnew, Option.bind_some, addAt_tally hold, Option.map_some]
        simp only [add_assoc, add_zero]
      · rw [addAt_tally hold, Option.map_some]
        rfl
      · rw [addAt_tally hnew, Option.map_some]
    rw [hone]
    refine (ih _ _).trans (congrArg some (Prod.ext ?_ ?_))
    · refine tally_congr fun k _ => ?_
      rw [List.map_cons, List.sum_cons, add_assoc]
    · dsimp only
      rw [List.map_cons, List.sum_cons, add_assoc]

/-- The counts of some edges, each short by a debt. -/
structure Owes (cs : CLPAState F) (edges : List (Vertex × Vertex)) (debt : ℕ → ℤ)
    (cutDebt : ℤ) : Prop where
  /-- the edges that touch each shard -/
  edges2Shard : cs.edges2Shard = tally cs.shardNum fun k => touching cs.label edges k - debt k
  /-- the edges that cross -/
  crossShardEdgeNum : cs.crossShardEdgeNum = cut cs.label edges - cutDebt
  /-- the least of the counts -/
  minEdges2Shard : cs.minEdges2Shard = minFrom maxInt cs.edges2Shard

theorem owes_counted : (cs.counted edges).Owes edges (fun _ => 0) 0 := by
  refine ⟨?_, ?_, rfl⟩
  · simp only [sub_zero]
    rfl
  · rw [sub_zero]
    rfl

/-- Counts without debts are right. -/
theorem Owes.eq_counted (h : cs.Owes edges (fun _ => 0) 0) : cs = cs.counted edges := by
  obtain ⟨hedges, hcut, hmin⟩ := h
  simp only [sub_zero] at hedges hcut
  rw [hedges] at hmin
  rw [counted, ← hmin, ← hcut, ← hedges]

/-- The state after a vertex has got a new label, before the counts are kept up. -/
def relabel (cs : CLPAState F) (v : Vertex) (new : ℕ) (nums : List ℤ) : CLPAState F :=
  { cs with
    partitionMap := Function.update cs.partitionMap v (some new)
    vertexsNumInShard := nums }

theorem label_relabel (cs : CLPAState F) (v : Vertex) (new : ℕ) (nums : List ℤ) :
    (cs.relabel v new nums).label = Function.update cs.label v new := by
  funext u
  rw [Function.update_apply, label]
  dsimp only [relabel]
  rw [Function.update_apply]
  split
  · rfl
  · rfl

/-- **What `changeShardRecompute` makes of the counts**: they owe what they owed before, and
once for each loop at the vertex at both of its shards. -/
theorem changeShardRecompute_owes {new : ℕ} (nums : List ℤ) {debt : ℕ → ℤ} {cutDebt : ℤ}
    (hg : cs.netGraph.Holds edges) (h : cs.Owes edges debt cutDebt) (hne : cs.label v ≠ new)
    (hnew : new < cs.shardNum) (hold : cs.label v < cs.shardNum) :
    ∃ cs', (cs.relabel v new nums).changeShardRecompute v (cs.label v) = some cs' ∧
      cs'.Owes edges
        (fun k => debt k +
          loops edges v * ((if k = new then 1 else 0) + if k = cs.label v then 1 else 0))
        (cutDebt + 2 * loops edges v) ∧
      cs'.netGraph = cs.netGraph ∧ cs'.shardNum = cs.shardNum ∧
      cs'.partitionMap = Function.update cs.partitionMap v (some new) ∧
      cs'.vertexsNumInShard = nums ∧ cs'.maxIterations = cs.maxIterations := by
  have hnewlab : (cs.relabel v new nums).label v = new := by
    rw [label_relabel, Function.update_self]
  have hrun := foldlM_recomputeNeighbour hnew hold
    ((cs.netGraph.adjacent v).map (cs.relabel v new nums).label)
    (fun k => touching cs.label edges k - debt k) (cut cs.label edges - cutDebt)
  rw [← h.edges2Shard, ← h.crossShardEdgeNum, label_relabel] at hrun
  rw [changeShardRecompute, hnewlab, label_relabel]
  change ∃ cs', Option.map _ (List.foldlM _ (cs.edges2Shard, cs.crossShardEdgeNum)
    ((cs.netGraph.adjacent v).map _)) = some cs' ∧ _
  rw [hrun, hg.adjacent]
  simp only [List.map_map, Function.comp_def]
  refine ⟨_, rfl, ⟨?_, ?_, rfl⟩, rfl, rfl, rfl, rfl, rfl⟩
  · refine tally_congr fun k _ => ?_
    change _ = (touching (cs.relabel v new nums).label edges k : ℤ) - _
    rw [label_relabel, touching_update hne edges k]
    ring
  · change _ = (cut (cs.relabel v new nums).label edges : ℤ) - _
    rw [label_relabel, cut_update hne edges, h.crossShardEdgeNum]
    dsimp only
    ring

/-! ## Visits -/

variable {fl : FloatOps F} {run run' : Run F}

theorem scoreNeighbour_shard {s s' : Scoring F} {uShard : ℕ}
    (h : cs.scoreNeighbour fl v s uShard = some s') :
    s'.maxScoreShard = s.maxScoreShard ∨ s'.maxScoreShard = uShard := by
  rw [scoreNeighbour] at h
  split at h
  · cases h
    exact .inl rfl
  · obtain ⟨score, -, h⟩ := Option.map_eq_some_iff.mp h
    dsimp only at h
    split at h
    · cases h
      exact .inr rfl
    · cases h
      exact .inl rfl

theorem foldlM_scoreNeighbour_shard {xs : List ℕ} {s s' : Scoring F}
    (h : xs.foldlM (cs.scoreNeighbour fl v) s = some s') :
    s'.maxScoreShard = s.maxScoreShard ∨ s'.maxScoreShard ∈ xs := by
  induction xs generalizing s with
  | nil =>
    cases h
    exact .inl rfl
  | cons x xs ih =>
    rw [List.foldlM_cons] at h
    obtain ⟨s₁, h₁, h⟩ := Option.bind_eq_some_iff.mp h
    rcases ih h with heq | hmem
    · rcases scoreNeighbour_shard h₁ with h₁ | h₁
      · exact .inl (heq.trans h₁)
      · exact .inr (by rw [heq, h₁]; exact List.mem_cons_self)
    · exact .inr (List.mem_cons_of_mem _ hmem)

/-- The best shard is that of the vertex or that of a neighbour. -/
theorem bestShard_eq_some {k : ℕ} (h : cs.bestShard fl v = some k) :
    k = cs.label v ∨ ∃ u ∈ cs.netGraph.adjacent v, cs.label u = k := by
  rw [bestShard] at h
  obtain ⟨s, hs, rfl⟩ := Option.map_eq_some_iff.mp h
  exact (foldlM_scoreNeighbour_shard hs).imp_right fun hmem => List.mem_map.mp hmem

/-- **There is a best shard** where the labels of the neighbours are indices. -/
theorem bestShard_isSome
    (h : ∀ u ∈ cs.netGraph.adjacent v, cs.label u < cs.edges2Shard.length) :
    (cs.bestShard fl v).isSome = true := by
  have hall : ∀ x ∈ (cs.netGraph.adjacent v).map cs.label, x < cs.edges2Shard.length := by
    intro x hx
    obtain ⟨u, hu, rfl⟩ := List.mem_map.mp hx
    exact h u hu
  rw [bestShard, Option.isSome_map]
  generalize (⟨fun _ => none, fl.ofInt (-9999), cs.label v⟩ : Scoring F) = s
  generalize (cs.netGraph.adjacent v).map cs.label = xs at hall
  induction xs generalizing s with
  | nil => rfl
  | cons x xs ih =>
    rw [List.forall_mem_cons] at hall
    have hone : ∃ s', cs.scoreNeighbour fl v s x = some s' := by
      rw [scoreNeighbour]
      split
      · exact ⟨s, rfl⟩
      · rw [getShardScore, List.getElem?_eq_getElem hall.1]
        exact ⟨_, rfl⟩
    obtain ⟨s', hs'⟩ := hone
    rw [List.foldlM_cons, hs']
    exact ih s' hall.2

/-- **What a visit can do**: nothing, or one move to the shard of a neighbour, out of a shard
that counts another vertex. -/
theorem visit_cases (h : visit fl run v = some run') :
    run' = run ∨ ∃ new num, run.cs.label v ≠ new ∧
      (∃ u ∈ run.cs.netGraph.adjacent v, run.cs.label u = new) ∧
      run.cs.vertexsNumInShard[run.cs.label v]? = some num ∧ 1 < num ∧
      run.move v new = some run' := by
  rw [visit] at h
  split at h
  · cases h
    exact .inl rfl
  · obtain ⟨new, hbest, h⟩ := Option.bind_eq_some_iff.mp h
    split at h
    · cases h
      exact .inl rfl
    · rename_i hne
      obtain ⟨num, hnum, h⟩ := Option.bind_eq_some_iff.mp h
      split at h
      · rename_i hlt
        refine .inr ⟨new, num, hne, ?_, hnum, hlt, h⟩
        exact (bestShard_eq_some hbest).resolve_left fun heq => hne heq.symm
      · cases h
        exact .inl rfl

/-- **What a move changes.** -/
theorem move_eq_some {new : ℕ} {debt : ℕ → ℤ} {cutDebt : ℤ} (hg : run.cs.netGraph.Holds edges)
    (hrange : run.cs.InRange edges) (howes : run.cs.Owes edges debt cutDebt)
    (hne : run.cs.label v ≠ new)
    (hnew : ∃ u ∈ run.cs.netGraph.adjacent v, run.cs.label u = new)
    (h : run.move v new = some run') :
    ∃ nums₁ nums₂, addAt run.cs.vertexsNumInShard (run.cs.label v) (-1) = some nums₁ ∧
      addAt nums₁ new 1 = some nums₂ ∧
      run'.cs.Owes edges
        (fun k => debt k + loops edges v *
          ((if k = new then 1 else 0) + if k = run.cs.label v then 1 else 0))
        (cutDebt + 2 * loops edges v) ∧
      run'.cs.netGraph = run.cs.netGraph ∧ run'.cs.shardNum = run.cs.shardNum ∧
      run'.cs.partitionMap = Function.update run.cs.partitionMap v (some new) ∧
      run'.cs.vertexsNumInShard = nums₂ ∧ run'.res = Function.update run.res v (some new) := by
  obtain ⟨u, hu, rfl⟩ := hnew
  rw [hg.adjacent] at hu
  obtain ⟨hlt, hold⟩ := hrange.of_mem_neighbours hu
  rw [Run.move] at h
  obtain ⟨nums₁, h₁, h⟩ := Option.bind_eq_some_iff.mp h
  obtain ⟨nums₂, h₂, h⟩ := Option.bind_eq_some_iff.mp h
  obtain ⟨cs', hcs', rfl⟩ := Option.map_eq_some_iff.mp h
  obtain ⟨cs₁, hrec, howes', hgraph, hnum, hmap, hnums, -⟩ :=
    changeShardRecompute_owes nums₂ hg howes hne hlt hold
  obtain rfl : cs₁ = cs' := Option.some.inj (hrec.symm.trans hcs')
  exact ⟨nums₁, nums₂, h₁, h₂, howes', hgraph, hnum, hmap, hnums, rfl⟩

theorem label_update {cs cs' : CLPAState F} {new : ℕ}
    (h : cs'.partitionMap = Function.update cs.partitionMap v (some new)) :
    cs'.label = Function.update cs.label v new := by
  have hlabel : cs'.label = (cs.relabel v new []).label := by
    funext u
    rw [label, label, h]
    rfl
  rw [hlabel, label_relabel]

/-- Labels stay in range with a move to the shard of a neighbour. -/
theorem InRange.of_move {cs cs' : CLPAState F} (h : cs.InRange edges) {new : ℕ}
    (hmap : cs'.partitionMap = Function.update cs.partitionMap v (some new))
    (hnum : cs'.shardNum = cs.shardNum) (hnew : new < cs.shardNum) : cs'.InRange edges := by
  intro e he
  rw [hnum, label_update hmap, Function.update_apply, Function.update_apply]
  constructor
  · split
    · exact hnew
    · exact (h e he).1
  · split
    · exact hnew
    · exact (h e he).2

/-- What every state of a run has from its start: the graph, and labels and counts that are
right. -/
structure Exact (edges : List (Vertex × Vertex)) (run : Run F) : Prop where
  /-- the graph -/
  holds : run.cs.netGraph.Holds edges
  /-- the labels -/
  inRange : run.cs.InRange edges
  /-- the counts -/
  owes : run.cs.Owes edges (fun _ => 0) 0

/-- **Every visit keeps the counts right** in a graph without loops. -/
theorem Exact.visit (hloop : ∀ e ∈ edges, e.1 ≠ e.2) (h : Exact edges run)
    (hv : CLPAState.visit fl run v = some run') : Exact edges run' := by
  rcases visit_cases hv with rfl | ⟨new, num, hne, hnew, -, -, hmove⟩
  · exact h
  · obtain ⟨-, -, -, -, howes, hgraph, hnum, hmap, -, -⟩ :=
      move_eq_some h.holds h.inRange h.owes hne hnew hmove
    obtain ⟨u, hu, rfl⟩ := hnew
    rw [h.holds.adjacent] at hu
    refine ⟨hgraph ▸ h.holds, h.inRange.of_move hmap hnum (h.inRange.of_mem_neighbours hu).1, ?_⟩
    simpa [loops_eq_zero hloop] using howes

end CLPAState

open CLPAState StepSystem

/-- **The books are exact**: over a graph that `AddEdge` has built without loops, and from
every partition whose labels are in range, CLPA can count; and after every visit of its run
a count from scratch changes nothing. -/
theorem bookkeeping_exact {F : Type} (fl : FloatOps F) (edges : List (Vertex × Vertex))
    (hloop : ∀ e ∈ edges, e.1 ≠ e.2) (cs : CLPAState F)
    (hrange : ∀ e ∈ edges, cs.label e.1 < cs.shardNum ∧ cs.label e.2 < cs.shardNum) :
    ∃ start, ({ cs with netGraph := Graph.ofEdges edges } : CLPAState F).computeEdges2Shard =
        some start ∧
      ∀ vs, AllStates (visit fl) (fun run => run.cs.computeEdges2Shard = some run.cs)
        (Run.start start) vs := by
  have hg := Graph.holds_ofEdges edges
  refine ⟨_, computeEdges2Shard_eq { cs with netGraph := Graph.ofEdges edges } hg hrange,
    fun vs => ?_⟩
  have hstart : Exact edges (Run.start (({ cs with netGraph := Graph.ofEdges edges } :
      CLPAState F).counted edges)) := ⟨hg, hrange, owes_counted⟩
  have hexact : ∀ run : Run F, Exact edges run → run.cs.computeEdges2Shard = some run.cs := by
    intro run h
    rw [computeEdges2Shard_eq run.cs h.holds h.inRange, ← h.owes.eq_counted]
  generalize Run.start (({ cs with netGraph := Graph.ofEdges edges } :
      CLPAState F).counted edges) = run at hstart
  induction vs generalizing run with
  | nil => exact hexact run hstart
  | cons v vs ih => exact ⟨hexact run hstart, fun run' hv => ih run' (hstart.visit hloop hv)⟩

/-- Scores as rational numbers, where division by zero gives zero. -/
def ratOps : FloatOps ℚ where
  ofInt n := n
  mul x y := x * y
  sub x y := x - y
  div x y := x / y
  lt x y := x < y

/-- A partition of `a`, `b`, `c` into two shards, with `c` alone. -/
def threeVertices : CLPAState ℚ :=
  { CLPAState.init (1 / 2) 1 2 fun v => some (if v = "c" then 0 else 1) with
    vertexsNumInShard := [1, 2] }

/-- `a` is moved to `c`, over one of three edges, and the counts are right. -/
theorem bookkeeping_exact_three :
    ∃ run : Run ℚ, run.cs.computeEdges2Shard = some run.cs ∧
      run.cs.label "a" = 0 ∧ run.cs.edges2Shard = [3, 1] ∧ run.cs.crossShardEdgeNum = 1 := by
  obtain ⟨start, hstart, hall⟩ := bookkeeping_exact ratOps [("a", "c"), ("c", "a"), ("a", "b")]
    (by decide) threeVertices (by decide)
  have hend : ((({ threeVertices with
      netGraph := Graph.ofEdges [("a", "c"), ("c", "a"), ("a", "b")] } :
        CLPAState ℚ).computeEdges2Shard.bind fun cs =>
      runWith (visit ratOps) (fun _ _ => True) (Run.start cs) ["b", "a"]).any fun run =>
        decide (run.cs.label "a" = 0 ∧ run.cs.edges2Shard = [3, 1] ∧
          run.cs.crossShardEdgeNum = 1)) = true := by
    decide +kernel
  rw [hstart, Option.bind_some] at hend
  exact (hall ["b", "a"]).exists_of_runWith hend

end Partition

end BlockEmulator
