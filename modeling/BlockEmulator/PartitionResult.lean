import BlockEmulator.PartitionCount

/-!
# What CLPA returns, and what its scores divide by

The graph of a run is built by `AddVertex` and `AddEdge`. `AddVertex` counts a vertex in its
shard each time it is called; CLPA never counts the vertices again.

* `clpaPartition_consistent_iff` — **the vertex counts are right, no shard is emptied, labels
  stay in range and the returned map is what has changed**, through a whole run, exactly where
  `AddVertex` was never called for a vertex that was there.
* `scores_defined_iff` — **no score divides by zero** exactly where, whenever scores are
  computed, every shard is touched by an edge, with one more for each loop that was moved in
  or out of it.
* `scores_defined_iff_nonempty` — over a graph of edges without loops: exactly where no shard
  is empty at the start.
-/

namespace BlockEmulator

namespace Partition

open Counters LabelledGraph CLPAState StepSystem

/-! ## Building a graph -/

/-- A call that builds the graph. -/
inductive GraphOp where
  /-- `AddVertex` -/
  | addVertex (v : Vertex)
  /-- `AddEdge` -/
  | addEdge (u v : Vertex)
  deriving DecidableEq

variable {F H : Type} (hf : HashFns H)

/-- What a call does to the state. -/
def CLPAState.apply (cs : CLPAState F) : GraphOp → Option (CLPAState F)
  | .addVertex v => cs.addVertex hf v
  | .addEdge u v => cs.addEdge hf u v

/-- The state that some calls build. -/
def CLPAState.build (cs : CLPAState F) (ops : List GraphOp) : Option (CLPAState F) :=
  ops.foldlM (CLPAState.apply hf) cs

/-- The edges of some calls. -/
def edgesOf (ops : List GraphOp) : List (Vertex × Vertex) :=
  ops.filterMap fun op => match op with
    | .addVertex _ => none
    | .addEdge u v => some (u, v)

/-- The vertices that `AddVertex` is called for while they are there. -/
def repeated : Finset Vertex → List GraphOp → List Vertex
  | _, [] => []
  | seen, .addVertex v :: ops =>
    if v ∈ seen then v :: repeated seen ops else repeated (insert v seen) ops
  | seen, .addEdge u v :: ops => repeated (insert v (insert u seen)) ops

/-- The vertices of a label. -/
def CLPAState.population (cs : CLPAState F) (k : ℕ) : ℕ :=
  (cs.netGraph.vertexSet.filter fun v => cs.label v = k).card

/-- How often vertices of a label were added again. -/
def CLPAState.surplus (cs : CLPAState F) (twice : List Vertex) (k : ℕ) : ℕ :=
  twice.countP fun v => cs.label v = k

/-- Calls leave the number of shards. -/
theorem CLPAState.build_shardNum {hf : HashFns H} {ops : List GraphOp} {cs cs' : CLPAState F}
    (h : cs.build hf ops = some cs') : cs'.shardNum = cs.shardNum := by
  have hadd : ∀ {cs cs' : CLPAState F} {v : Vertex}, cs.addVertex hf v = some cs' →
      cs'.shardNum = cs.shardNum := by
    intro cs cs' v h
    obtain ⟨nums, -, rfl⟩ := Option.map_eq_some_iff.mp h
    rfl
  have hensure : ∀ {cs cs' : CLPAState F} {v : Vertex}, cs.ensureVertex hf v = some cs' →
      cs'.shardNum = cs.shardNum := by
    intro cs cs' v h
    rw [CLPAState.ensureVertex] at h
    split at h
    · cases h
      rfl
    · exact hadd h
  induction ops generalizing cs with
  | nil =>
    cases h
    rfl
  | cons op ops ih =>
    rw [CLPAState.build, List.foldlM_cons] at h
    obtain ⟨cs₁, hop, hrest⟩ := Option.bind_eq_some_iff.mp h
    refine (ih hrest).trans ?_
    cases op with
    | addVertex v => exact hadd hop
    | addEdge u v =>
      obtain ⟨cs₂, hu, hop⟩ := Option.bind_eq_some_iff.mp hop
      obtain ⟨cs₃, hv, rfl⟩ := Option.map_eq_some_iff.mp hop
      exact (hensure hv).trans (hensure hu)

/-- What calls make of a state. -/
structure Built (cs : CLPAState F) (edges : List (Vertex × Vertex)) (twice : List Vertex) :
    Prop where
  /-- the edges -/
  holds : cs.netGraph.Holds edges
  /-- their ends are vertices -/
  ends : ∀ e ∈ edges, e.1 ∈ cs.netGraph.vertexSet ∧ e.2 ∈ cs.netGraph.vertexSet
  /-- vertices have labels -/
  placed : ∀ v ∈ cs.netGraph.vertexSet, cs.partitionMap v ≠ none
  /-- the labels are in range -/
  labels : ∀ v ∈ cs.netGraph.vertexSet, cs.label v < cs.shardNum
  /-- the counts -/
  nums : cs.vertexsNumInShard =
    tally cs.shardNum fun k => cs.population k + cs.surplus twice k
  /-- what was added again is there -/
  twice_mem : ∀ v ∈ twice, v ∈ cs.netGraph.vertexSet

section Building

variable {hf} {cs cs' : CLPAState F} {edges : List (Vertex × Vertex)} {twice : List Vertex}
  {u v : Vertex}

theorem built_init (wp : F) (mIter sn : ℕ) (pm : Vertex → Option ℕ) :
    Built (CLPAState.init wp mIter sn pm) [] [] := by
  refine ⟨Graph.holds_empty, nofun, nofun, nofun, ?_, nofun⟩
  rw [CLPAState.init, replicate_eq_tally]
  rfl

/-- A vertex that is there is counted once more. -/
theorem Built.addVertex_mem (h : Built cs edges twice) (hv : v ∈ cs.netGraph.vertexSet)
    (hadd : cs.addVertex hf v = some cs') :
    Built cs' edges (v :: twice) ∧ cs'.netGraph.vertexSet = cs.netGraph.vertexSet := by
  obtain ⟨k, hk⟩ := Option.ne_none_iff_exists'.mp (h.placed v hv)
  have hlabel : cs.label v = k := by rw [CLPAState.label, hk, Option.getD_some]
  have hlt : k < cs.shardNum := hlabel ▸ h.labels v hv
  rw [CLPAState.addVertex, hk, Option.getD_some, h.nums, addAt_tally hlt, Option.map_some] at hadd
  obtain rfl := Option.some.inj hadd
  have hset : insert v cs.netGraph.vertexSet = cs.netGraph.vertexSet := Finset.insert_eq_of_mem hv
  have hmap : Function.update cs.partitionMap v (some k) = cs.partitionMap := by
    rw [← hk, Function.update_eq_self]
  simp only [Graph.addVertex, hset, hmap]
  refine ⟨⟨h.holds, h.ends, h.placed, h.labels, ?_, ?_⟩, trivial⟩
  · refine tally_congr fun j _ => ?_
    have hcount : cs.surplus (v :: twice) j = cs.surplus twice j + if cs.label v = j then 1 else 0 := by
      rw [CLPAState.surplus, List.countP_cons, CLPAState.surplus]
      simp only [decide_eq_true_eq]
    change _ = ((cs.population j : ℤ) + (cs.surplus (v :: twice) j : ℤ))
    rw [hcount, hlabel]
    push_cast
    simp only [eq_comm (a := j)]
    ring
  · rw [List.forall_mem_cons]
    exact ⟨hv, h.twice_mem⟩

/-- A new vertex is counted in its shard. -/
theorem Built.addVertex_notMem (h : Built cs edges twice) (hv : v ∉ cs.netGraph.vertexSet)
    (hadd : cs.addVertex hf v = some cs') :
    Built cs' edges twice ∧ cs'.netGraph.vertexSet = insert v cs.netGraph.vertexSet := by
  rw [CLPAState.addVertex] at hadd
  generalize (cs.partitionMap v).getD (addr2ShardWithShardNum hf v cs.shardNum) = k at hadd
  by_cases hlt : k < cs.shardNum
  · rw [h.nums, addAt_tally hlt, Option.map_some] at hadd
    have hcs := Option.some.inj hadd
    have hgraph : cs'.netGraph = cs.netGraph.addVertex v := by rw [← hcs]
    have hset : cs'.netGraph.vertexSet = insert v cs.netGraph.vertexSet := by rw [hgraph]; rfl
    have hmap : cs'.partitionMap = Function.update cs.partitionMap v (some k) := by rw [← hcs]
    have hsn : cs'.shardNum = cs.shardNum := by rw [← hcs]
    have hlabel := label_update hmap
    have hold : ∀ w ∈ cs.netGraph.vertexSet, cs'.label w = cs.label w := by
      intro w hw
      have hne : w ≠ v := fun heq => hv (heq ▸ hw)
      rw [hlabel, Function.update_of_ne hne]
    have hnew : cs'.label v = k := by rw [hlabel, Function.update_self]
    refine ⟨⟨hgraph ▸ h.holds.addVertex v, fun e he => ?_, fun w hw => ?_, fun w hw => ?_, ?_,
      fun w hw => ?_⟩, hset⟩
    · rw [hset]
      exact ⟨Finset.mem_insert_of_mem (h.ends e he).1, Finset.mem_insert_of_mem (h.ends e he).2⟩
    · rw [hmap, Function.update_apply]
      rw [hset] at hw
      split
      · exact nofun
      · rename_i hwv
        exact h.placed w ((Finset.mem_insert.mp hw).resolve_left hwv)
    · rw [hset] at hw
      rw [hsn]
      rcases Finset.mem_insert.mp hw with rfl | hw
      · rwa [hnew]
      · rw [hold w hw]
        exact h.labels w hw
    · have hpop : ∀ j, cs'.population j = cs.population j + if k = j then 1 else 0 := by
        intro j
        have hfilter : (cs.netGraph.vertexSet.filter fun w => cs'.label w = j) =
            cs.netGraph.vertexSet.filter fun w => cs.label w = j :=
          Finset.filter_congr fun w hw => by rw [hold w hw]
        rw [CLPAState.population, hset, Finset.filter_insert, hfilter, hnew]
        split
        · rw [Finset.card_insert_of_notMem fun hmem => hv (Finset.mem_filter.mp hmem).1]
          rfl
        · rfl
      have hsur : ∀ j, cs'.surplus twice j = cs.surplus twice j := fun j =>
        List.countP_congr fun w hw => by rw [hold w (h.twice_mem w hw)]
      rw [hsn, ← hcs]
      refine tally_congr fun j _ => ?_
      rw [hcs, hpop, hsur]
      push_cast
      simp only [eq_comm (a := j)]
      ring
    · rw [hset]
      exact Finset.mem_insert_of_mem (h.twice_mem w hw)
  · rw [h.nums, addAt_tally_none hlt] at hadd
    cases hadd

theorem Built.ensureVertex (h : Built cs edges twice) (hadd : cs.ensureVertex hf v = some cs') :
    Built cs' edges twice ∧ cs'.netGraph.vertexSet = insert v cs.netGraph.vertexSet := by
  rw [CLPAState.ensureVertex] at hadd
  split at hadd
  · rename_i hv
    cases hadd
    exact ⟨h, (Finset.insert_eq_of_mem hv).symm⟩
  · rename_i hv
    exact h.addVertex_notMem hv hadd

theorem Built.addEdge (h : Built cs edges twice) (hadd : cs.addEdge hf u v = some cs') :
    Built cs' (edges ++ [(u, v)]) twice ∧
      cs'.netGraph.vertexSet = insert v (insert u cs.netGraph.vertexSet) := by
  rw [CLPAState.addEdge] at hadd
  obtain ⟨cs₁, hu, hadd⟩ := Option.bind_eq_some_iff.mp hadd
  obtain ⟨cs₂, hv, rfl⟩ := Option.map_eq_some_iff.mp hadd
  obtain ⟨h₁, hset₁⟩ := h.ensureVertex hu
  obtain ⟨h₂, hset₂⟩ := h₁.ensureVertex hv
  rw [hset₁] at hset₂
  have humem : u ∈ cs₂.netGraph.vertexSet := by rw [hset₂]; simp
  have hvmem : v ∈ cs₂.netGraph.vertexSet := by rw [hset₂]; simp
  -- both ends are there by now
  have hset : (cs₂.netGraph.addEdge u v).vertexSet = cs₂.netGraph.vertexSet := by
    rw [Graph.addEdge, if_pos humem, if_pos hvmem]
    rfl
  refine ⟨⟨h₂.holds.addEdge u v, fun e he => ?_, fun w hw => ?_, fun w hw => ?_, ?_,
    fun w hw => ?_⟩, hset.trans hset₂⟩
  · rw [hset]
    rcases List.mem_append.mp he with he | he
    · exact h₂.ends e he
    · obtain rfl := List.mem_singleton.mp he
      exact ⟨humem, hvmem⟩
  · exact h₂.placed w (hset ▸ hw)
  · exact h₂.labels w (hset ▸ hw)
  · refine h₂.nums.trans (tally_congr fun k _ => ?_)
    rw [CLPAState.population, CLPAState.population, hset]
    rfl
  · rw [hset]
    exact h₂.twice_mem w hw

theorem Built.perm (h : Built cs edges twice) {twice' : List Vertex} (hp : twice.Perm twice') :
    Built cs edges twice' := by
  refine ⟨h.holds, h.ends, h.placed, h.labels, h.nums.trans (tally_congr fun k _ => ?_),
    fun v hv => h.twice_mem v (hp.mem_iff.mpr hv)⟩
  rw [CLPAState.surplus, CLPAState.surplus, hp.countP_eq]

/-- **What calls build.** -/
theorem Built.build (ops : List GraphOp) (h : Built cs edges twice)
    (hb : cs.build hf ops = some cs') :
    Built cs' (edges ++ edgesOf ops) (repeated cs.netGraph.vertexSet ops ++ twice) := by
  induction ops generalizing cs edges twice with
  | nil =>
    cases hb
    rw [edgesOf, List.filterMap_nil, List.append_nil]
    exact h
  | cons op ops ih =>
    rw [CLPAState.build, List.foldlM_cons] at hb
    obtain ⟨cs₁, hop, hrest⟩ := Option.bind_eq_some_iff.mp hb
    have hbuild : cs₁.build hf ops = some cs' := hrest
    cases op with
    | addVertex v =>
      rw [repeated]
      split
      · rename_i hv
        obtain ⟨h₁, hset⟩ := h.addVertex_mem hv hop
        rw [← hset]
        exact (ih h₁ hbuild).perm List.perm_middle
      · rename_i hv
        obtain ⟨h₁, hset⟩ := h.addVertex_notMem hv hop
        rw [← hset]
        exact ih h₁ hbuild
    | addEdge u v =>
      obtain ⟨h₁, hset⟩ := h.addEdge hop
      rw [repeated, ← hset, edgesOf, List.filterMap_cons]
      have hall := ih h₁ hbuild
      rw [List.append_assoc] at hall
      exact hall

end Building

/-! ## A run -/

/-- What every state of a run has from the state before it. -/
structure Tracked (edges : List (Vertex × Vertex)) (extra : ℕ → ℕ) (cs₀ : CLPAState F)
    (run : Run F) : Prop where
  /-- the edges -/
  holds : run.cs.netGraph.Holds edges
  /-- their ends are vertices -/
  ends : ∀ e ∈ edges, e.1 ∈ run.cs.netGraph.vertexSet ∧ e.2 ∈ run.cs.netGraph.vertexSet
  /-- the labels are in range -/
  labels : ∀ v ∈ run.cs.netGraph.vertexSet, run.cs.label v < run.cs.shardNum
  /-- the counts are too large by what they were too large at the start -/
  nums : run.cs.vertexsNumInShard =
    tally run.cs.shardNum fun k => run.cs.population k + extra k
  /-- the edges are counted, up to debts -/
  owes : ∃ debt cutDebt, run.cs.Owes edges debt cutDebt
  /-- the graph stays -/
  graph : run.cs.netGraph = cs₀.netGraph
  /-- the returned map holds what has changed -/
  overlay : ∀ v, run.cs.partitionMap v = (run.res v).or (cs₀.partitionMap v)

section Running

variable {edges : List (Vertex × Vertex)} {extra : ℕ → ℕ} {cs₀ : CLPAState F} {fl : FloatOps F}
  {run run' : Run F} {v : Vertex}

theorem population_eq (cs : CLPAState F) (hv : v ∈ cs.netGraph.vertexSet) (k : ℕ) :
    cs.population k =
      ((cs.netGraph.vertexSet.erase v).filter fun w => cs.label w = k).card +
        if cs.label v = k then 1 else 0 := by
  rw [CLPAState.population, ← Finset.insert_erase hv, Finset.filter_insert,
    Finset.erase_insert (Finset.notMem_erase v _)]
  split
  · rw [Finset.card_insert_of_notMem fun hmem =>
      Finset.notMem_erase v _ (Finset.mem_filter.mp hmem).1]
  · rw [add_zero]

/-- One vertex of another label. -/
theorem population_update {cs cs' : CLPAState F} {new : ℕ} (hv : v ∈ cs.netGraph.vertexSet)
    (hgraph : cs'.netGraph = cs.netGraph) (hlabel : cs'.label = Function.update cs.label v new)
    (k : ℕ) :
    cs'.population k + (if cs.label v = k then 1 else 0) =
      cs.population k + if new = k then 1 else 0 := by
  have hrest : ((cs'.netGraph.vertexSet.erase v).filter fun w => cs'.label w = k) =
      (cs.netGraph.vertexSet.erase v).filter fun w => cs.label w = k := by
    rw [hgraph]
    refine Finset.filter_congr fun w hw => ?_
    rw [hlabel, Function.update_of_ne (Finset.ne_of_mem_erase hw)]
  rw [population_eq cs' (hgraph ▸ hv), population_eq cs hv, hrest, hlabel, Function.update_self]
  omega

namespace Tracked

theorem inRange (h : Tracked edges extra cs₀ run) : run.cs.InRange edges :=
  fun e he => ⟨h.labels _ (h.ends e he).1, h.labels _ (h.ends e he).2⟩

/-- A vertex with a neighbour is in the graph. -/
theorem mem_of_adjacent (h : Tracked edges extra cs₀ run) {u : Vertex}
    (hu : u ∈ run.cs.netGraph.adjacent v) : v ∈ run.cs.netGraph.vertexSet := by
  rw [h.holds.adjacent] at hu
  obtain ⟨e, he, ⟨rfl, -⟩ | ⟨rfl, -⟩⟩ := mem_neighbours.mp hu
  · exact (h.ends e he).1
  · exact (h.ends e he).2

/-- **A visit that moves a vertex**: what it does to the labels and to the counts. -/
theorem visit_moves (h : Tracked edges extra cs₀ run) (hv : visit fl run v = some run') :
    run' = run ∨ ∃ new, run.cs.label v ≠ new ∧ v ∈ run.cs.netGraph.vertexSet ∧
      new < run.cs.shardNum ∧ 1 < run.cs.population (run.cs.label v) + extra (run.cs.label v) ∧
      run'.cs.netGraph = run.cs.netGraph ∧ run'.cs.shardNum = run.cs.shardNum ∧
      run'.cs.label = Function.update run.cs.label v new ∧ Tracked edges extra cs₀ run' := by
  rcases visit_cases hv with rfl | ⟨new, num, hne, hnew, hnum, hlt, hmove⟩
  · exact .inl rfl
  · obtain ⟨debt, cutDebt, howes⟩ := h.owes
    obtain ⟨nums₁, nums₂, h₁, h₂, howes', hgraph, hsn, hmap, hnums, hres⟩ :=
      move_eq_some h.holds h.inRange howes hne hnew hmove
    obtain ⟨u, hu, rfl⟩ := hnew
    have hmem := h.mem_of_adjacent hu
    rw [h.holds.adjacent] at hu
    obtain ⟨hnewlt, hold⟩ := h.inRange.of_mem_neighbours hu
    have hlabel := label_update hmap
    rw [h.nums, tally_getElem? hold] at hnum
    obtain rfl := Option.some.inj hnum
    rw [h.nums, addAt_tally hold] at h₁
    obtain rfl := Option.some.inj h₁
    rw [addAt_tally hnewlt] at h₂
    obtain rfl := Option.some.inj h₂
    refine .inr ⟨_, hne, hmem, hnewlt, by exact_mod_cast hlt, hgraph, hsn, hlabel, ?_⟩
    refine ⟨hgraph ▸ h.holds, hgraph ▸ h.ends, fun w hw => ?_, ?_, ⟨_, _, howes'⟩,
      hgraph.trans h.graph, fun w => ?_⟩
    · rw [hsn, hlabel, Function.update_apply]
      split
      · exact hnewlt
      · exact h.labels w (hgraph ▸ hw)
    · rw [hnums, hsn]
      refine tally_congr fun k _ => ?_
      have hpop := population_update hmem hgraph hlabel k
      clear h₁ h₂ hnums hnum
      split_ifs at hpop ⊢ <;> omega
    · rw [hmap, hres, Function.update_apply, Function.update_apply]
      split
      · rfl
      · exact h.overlay w

theorem visit (h : Tracked edges extra cs₀ run) (hv : CLPAState.visit fl run v = some run') :
    Tracked edges extra cs₀ run' := by
  rcases h.visit_moves hv with rfl | ⟨new, -, -, -, -, -, -, -, h'⟩
  · exact h
  · exact h'

/-- **A visit does not panic.** -/
theorem visit_isSome (fl : FloatOps F) (h : Tracked edges extra cs₀ run) (v : Vertex) :
    ∃ run', CLPAState.visit fl run v = some run' := by
  obtain ⟨debt, cutDebt, howes⟩ := h.owes
  rw [CLPAState.visit]
  split
  · exact ⟨run, rfl⟩
  · have hlen : run.cs.edges2Shard.length = run.cs.shardNum := by
      rw [howes.edges2Shard, length_tally]
    have hbest : (run.cs.bestShard fl v).isSome = true := bestShard_isSome fun u hu => by
      rw [h.holds.adjacent] at hu
      rw [hlen]
      exact (h.inRange.of_mem_neighbours hu).1
    obtain ⟨new, hnew⟩ := Option.isSome_iff_exists.mp hbest
    rw [hnew, Option.bind_some]
    split
    · exact ⟨run, rfl⟩
    · rename_i hne
      -- the shard is that of a neighbour, so both labels are indices
      obtain ⟨u, hu, rfl⟩ := (bestShard_eq_some hnew).resolve_left fun heq => hne heq.symm
      rw [h.holds.adjacent] at hu
      obtain ⟨hnewlt, hold⟩ := h.inRange.of_mem_neighbours hu
      rw [h.nums, tally_getElem? hold, Option.bind_some]
      split
      · obtain ⟨cs', hcs', -⟩ := changeShardRecompute_owes
          (tally run.cs.shardNum fun k => (run.cs.population k + extra k +
            if k = run.cs.label v then -1 else 0) + if k = run.cs.label u then 1 else 0)
          h.holds howes hne hnewlt hold
        rw [Run.move, h.nums]
        dsimp only
        rw [addAt_tally hold, Option.bind_some, addAt_tally hnewlt, Option.bind_some]
        rw [relabel] at hcs'
        rw [hcs', Option.map_some]
        exact ⟨_, rfl⟩
      · exact ⟨run, rfl⟩

/-- What is returned are numbers of shards. -/
theorem res_lt (h : Tracked edges extra cs₀ run)
    (hres : ∀ w k, run.res w = some k → k < run.cs.shardNum)
    (hv : CLPAState.visit fl run v = some run') :
    run'.cs.shardNum = run.cs.shardNum ∧ ∀ w k, run'.res w = some k → k < run'.cs.shardNum := by
  rcases visit_cases hv with rfl | ⟨new, num, hne, hnew, -, -, hmove⟩
  · exact ⟨rfl, hres⟩
  · obtain ⟨debt, cutDebt, howes⟩ := h.owes
    obtain ⟨-, -, -, -, -, -, hsn, -, -, hres'⟩ :=
      move_eq_some h.holds h.inRange howes hne hnew hmove
    obtain ⟨u, hu, rfl⟩ := hnew
    rw [h.holds.adjacent] at hu
    refine ⟨hsn, fun w k hk => ?_⟩
    rw [hres', Function.update_apply] at hk
    rw [hsn]
    split at hk
    · obtain rfl := Option.some.inj hk
      exact (h.inRange.of_mem_neighbours hu).1
    · exact hres w k hk

/-- The run returns numbers of shards. -/
theorem foldlM_res_lt {vs : List Vertex} (h : Tracked edges extra cs₀ run)
    (hres : ∀ w k, run.res w = some k → k < run.cs.shardNum)
    (hrun : vs.foldlM (CLPAState.visit fl) run = some run') :
    ∀ w k, run'.res w = some k → k < run.cs.shardNum := by
  induction vs generalizing run with
  | nil =>
    cases hrun
    exact hres
  | cons v vs ih =>
    rw [List.foldlM_cons] at hrun
    obtain ⟨run₁, hv, hrest⟩ := Option.bind_eq_some_iff.mp hrun
    obtain ⟨hsn, hres₁⟩ := h.res_lt hres hv
    rw [← hsn]
    exact ih (h.visit hv) hres₁ hrest

/-- Where the counts are right no shard is emptied. -/
theorem population_pos (h : Tracked edges (fun _ => 0) cs₀ run)
    (hv : CLPAState.visit fl run v = some run') {k : ℕ} (hk : 0 < run.cs.population k) :
    0 < run'.cs.population k := by
  rcases h.visit_moves hv with rfl | ⟨new, -, hmem, -, hlt, hgraph, -, hlabel, -⟩
  · exact hk
  · have hpop := population_update hmem hgraph hlabel k
    -- the shard that the vertex leaves has another one
    by_cases heq : run.cs.label v = k
    · rw [heq] at hlt
      rw [if_pos heq] at hpop
      split_ifs at hpop <;> omega
    · rw [if_neg heq] at hpop
      split_ifs at hpop <;> omega

end Tracked

/-- The state behind the first count. -/
theorem Built.tracked {cs : CLPAState F} {twice : List Vertex} (h : Built cs edges twice) :
    cs.computeEdges2Shard = some (cs.counted edges) ∧
      Tracked edges (cs.surplus twice) cs (Run.start (cs.counted edges)) := by
  have hrange : cs.InRange edges :=
    fun e he => ⟨h.labels _ (h.ends e he).1, h.labels _ (h.ends e he).2⟩
  exact ⟨computeEdges2Shard_eq cs h.holds hrange, h.holds, h.ends, h.labels, h.nums,
    ⟨_, _, owes_counted⟩, rfl, fun _ => rfl⟩

end Running

/-! ## The result -/

/-- What is expected of a state of a run, with the map returned so far. -/
structure ResultConsistent (cs₀ : CLPAState F) (res : Vertex → Option ℕ) (cs : CLPAState F) :
    Prop where
  /-- the vertices of each shard are counted -/
  nums : cs.vertexsNumInShard = tally cs.shardNum fun k => cs.population k
  /-- no shard has been emptied -/
  populated : ∀ k, 0 < cs₀.population k → 0 < cs.population k
  /-- the labels are in range -/
  labels : ∀ v ∈ cs.netGraph.vertexSet, cs.label v < cs.shardNum
  /-- the map, laid over the labels at the start -/
  overlay : ∀ v, cs.partitionMap v = (res v).or (cs₀.partitionMap v)

/-- `CLPA_Partition` goes through, with all this in every state and at the end. -/
def ClpaConsistent (fl : FloatOps F) (cs₀ : CLPAState F) (orders : ℕ → List Vertex) : Prop :=
  ∃ start res cross cs, cs₀.computeEdges2Shard = some start ∧
    AllStates (visit fl) (fun run => ResultConsistent cs₀ run.res run.cs) (Run.start start)
      (start.visits orders) ∧
    clpaPartition fl cs₀ orders = some (res, cross, cs) ∧ ResultConsistent cs₀ res cs

theorem Tracked.consistent {edges : List (Vertex × Vertex)} {cs₀ : CLPAState F} {run : Run F}
    (h : Tracked edges (fun _ => 0) cs₀ run)
    (hpop : ∀ k, 0 < cs₀.population k → 0 < run.cs.population k) :
    ResultConsistent cs₀ run.res run.cs := by
  refine ⟨?_, hpop, h.labels, h.overlay⟩
  rw [h.nums]
  simp

/-- **The run** over counts that are right: it is consistent in every state, and goes through. -/
theorem Tracked.run_consistent {edges : List (Vertex × Vertex)} {cs₀ : CLPAState F}
    (fl : FloatOps F) {run : Run F} (h : Tracked edges (fun _ => 0) cs₀ run)
    (hpop : ∀ k, 0 < cs₀.population k → 0 < run.cs.population k) (vs : List Vertex) :
    AllStates (CLPAState.visit fl) (fun run => ResultConsistent cs₀ run.res run.cs) run vs ∧
      ∃ run', vs.foldlM (CLPAState.visit fl) run = some run' ∧ Tracked edges (fun _ => 0) cs₀ run' ∧
        ∀ k, 0 < cs₀.population k → 0 < run'.cs.population k := by
  induction vs generalizing run with
  | nil => exact ⟨h.consistent hpop, run, rfl, h, hpop⟩
  | cons v vs ih =>
    obtain ⟨run₁, hv⟩ := h.visit_isSome fl v
    obtain ⟨hall, hrest⟩ := ih (h.visit hv) fun k hk => h.population_pos hv (hpop k hk)
    refine ⟨⟨h.consistent hpop, fun run₂ h₂ => ?_⟩, ?_⟩
    · obtain rfl := Option.some.inj (hv.symm.trans h₂)
      exact hall
    · rw [List.foldlM_cons, hv]
      exact hrest

/-- **CLPA's result is consistent**, through the whole run and whatever the scores are,
exactly where `AddVertex` was never called for a vertex that was there. -/
theorem clpaPartition_consistent_iff (hf : HashFns H) (fl : FloatOps F) (wp : F) (mIter sn : ℕ)
    (pm : Vertex → Option ℕ) (ops : List GraphOp) (cs : CLPAState F)
    (hb : (CLPAState.init wp mIter sn pm).build hf ops = some cs) (orders : ℕ → List Vertex) :
    ClpaConsistent fl cs orders ↔ repeated ∅ ops = [] := by
  have hbuilt := (built_init wp mIter sn pm).build ops hb
  rw [List.nil_append, List.append_nil] at hbuilt
  change Built cs (edgesOf ops) (repeated ∅ ops) at hbuilt
  obtain ⟨hcompute, htracked⟩ := hbuilt.tracked
  constructor
  · rintro ⟨start, -, -, -, hstart, hall, -, -⟩
    obtain rfl : cs.counted (edgesOf ops) = start := by
      rw [hcompute] at hstart
      exact Option.some.inj hstart
    -- the counts at the start are too large by what was added again
    have hfirst : ResultConsistent cs (fun _ => none) (cs.counted (edgesOf ops)) := by
      cases hvs : (cs.counted (edgesOf ops)).visits orders with
      | nil =>
        rw [hvs] at hall
        exact hall
      | cons v vs =>
        rw [hvs] at hall
        exact hall.1
    have hnums := hfirst.nums.symm.trans htracked.nums
    by_contra hne
    obtain ⟨v, hv⟩ := List.exists_mem_of_ne_nil _ hne
    have hlt := hbuilt.labels v (hbuilt.twice_mem v hv)
    have hzero := tally_inj.mp hnums (cs.label v) hlt
    have hpos : 0 < cs.surplus (repeated ∅ ops) (cs.label v) :=
      List.countP_pos_iff.mpr ⟨v, hv, decide_eq_true rfl⟩
    change (cs.population (cs.label v) : ℤ) =
      cs.population (cs.label v) + cs.surplus (repeated ∅ ops) (cs.label v) at hzero
    omega
  · intro hnil
    rw [hnil] at htracked
    have hzero : cs.surplus ([] : List Vertex) = fun _ => 0 := rfl
    rw [hzero] at htracked
    obtain ⟨hall, run, hrun, hend, hpop⟩ := htracked.run_consistent fl (fun _ hk => hk)
      ((cs.counted (edgesOf ops)).visits orders)
    refine ⟨_, run.res, cut run.cs.label (edgesOf ops), run.cs.counted (edgesOf ops), hcompute,
      hall, ?_, ?_⟩
    · rw [clpaPartition, hcompute, Option.bind_some, hrun, Option.bind_some,
        computeEdges2Shard_eq run.cs hend.holds hend.inRange, Option.map_some]
      rfl
    · obtain ⟨hnums, hpopulated, hlabels, hoverlay⟩ := hend.consistent hpop
      exact ⟨hnums, hpopulated, hlabels, hoverlay⟩

/-- `CLPA_Partition` moves vertices to shards that exist. -/
theorem Built.clpaPartition_lt {edges : List (Vertex × Vertex)} {twice : List Vertex}
    {fl : FloatOps F} {cs cs' : CLPAState F} {orders : ℕ → List Vertex} {res : Vertex → Option ℕ}
    {cross : ℤ} (h : Built cs edges twice)
    (hrun : clpaPartition fl cs orders = some (res, cross, cs')) {v : Vertex} {k : ℕ}
    (hk : res v = some k) : k < cs.shardNum := by
  obtain ⟨hcompute, htracked⟩ := h.tracked
  rw [clpaPartition, hcompute, Option.bind_some] at hrun
  obtain ⟨run, hfold, hend⟩ := Option.bind_eq_some_iff.mp hrun
  obtain ⟨cs₁, -, heq⟩ := Option.map_eq_some_iff.mp hend
  obtain ⟨rfl, -⟩ := Prod.mk.inj heq
  exact htracked.foldlM_res_lt (fun _ _ h => nomatch h) hfold v k hk

/-- Two shards, with `a` in the first and all others in the second. -/
def twoShards : CLPAState ℚ :=
  CLPAState.init (1 / 2) 2 2 fun v => some (if v = "a" then 0 else 1)

/-- Over the edges `a`-`b` and `b`-`c`, with `c` added before. -/
theorem clpaPartition_consistent_two :
    ∃ cs, twoShards.build freeHash [.addVertex "c", .addEdge "a" "b", .addEdge "b" "c"] = some cs ∧
      ClpaConsistent ratOps cs fun _ => ["b", "a", "c"] := by
  obtain ⟨cs, hcs⟩ := Option.isSome_iff_exists.mp
    (show (twoShards.build freeHash
      [.addVertex "c", .addEdge "a" "b", .addEdge "b" "c"]).isSome = true by decide +kernel)
  exact ⟨cs, hcs, (clpaPartition_consistent_iff freeHash ratOps (1 / 2) 2 2 _
    [.addVertex "c", .addEdge "a" "b", .addEdge "b" "c"] cs hcs _).mpr (by decide)⟩

/-- `a` is added twice, and counts as two: it leaves its shard empty. -/
theorem clpaPartition_empties :
    ¬ ∀ (ops : List GraphOp) (cs : CLPAState ℚ), twoShards.build freeHash ops = some cs →
      ∀ orders, ClpaConsistent ratOps cs orders := by
  intro hall
  have hend : ((twoShards.build freeHash [.addVertex "a", .addVertex "a", .addEdge "a" "b"]).any
      fun cs => (clpaPartition ratOps cs fun _ => ["a", "b"]).any fun r =>
        decide (0 < cs.population 0 ∧ r.2.2.population 0 = 0)) = true := by
    decide +kernel
  obtain ⟨cs, hcs, hend⟩ := (Option.any_eq_true _ _).mp hend
  obtain ⟨-, res, cross, cs', -, -, hpart, hresult⟩ := hall _ cs hcs fun _ => ["a", "b"]
  rw [hpart, Option.any_some, decide_eq_true_eq] at hend
  have hpos := hresult.populated 0 hend.1
  exact absurd hend.2 hpos.ne'

/-! ## What scores divide by -/

/-- `getShard_score` is evaluated for a vertex and a shard. -/
def Evaluates (run : Run F) (v : Vertex) (uShard : ℕ) : Prop :=
  run.updateTreshold v < 50 ∧ ∃ u ∈ run.cs.netGraph.adjacent v, run.cs.label u = uShard

/-- The scores of a visit are well defined: what they divide by is positive. -/
def ScoresDefined (run : Run F) (v : Vertex) : Prop :=
  ∀ uShard, Evaluates run v uShard →
    0 < (run.cs.netGraph.adjacent v).length ∧ 0 < run.cs.minEdges2Shard

/-- A state of a run, with the loops that were moved in or out of each shard. -/
abbrev LoopRun (F : Type) : Type := Run F × (ℕ → ℤ)

/-- A visit that records the loops it moves. -/
def visitLoops (fl : FloatOps F) (edges : List (Vertex × Vertex)) (s : LoopRun F) (v : Vertex) :
    Option (LoopRun F) :=
  (visit fl s.1 v).map fun run' =>
    (run', fun k => s.2 k +
      if s.1.cs.label v ≠ run'.cs.label v ∧ (k = s.1.cs.label v ∨ k = run'.cs.label v) then
        (loops edges v : ℤ)
      else 0)

/-- At a visit that computes scores, every shard is touched by more edges than loops were
moved in or out of it. -/
def ShardsTouched (edges : List (Vertex × Vertex)) (s : LoopRun F) (v : Vertex) : Prop :=
  (∃ uShard, Evaluates s.1 v uShard) →
    ∀ k < s.1.cs.shardNum, s.2 k < touching s.1.cs.label edges k

section Scores

variable {edges : List (Vertex × Vertex)} {extra : ℕ → ℕ} {cs₀ : CLPAState F} {fl : FloatOps F}
  {run run' : Run F} {v : Vertex} {debt : ℕ → ℤ} {cutDebt : ℤ}

/-- What is divided by is positive where each shard has edges left. -/
theorem minEdges2Shard_pos (h : run.cs.Owes edges debt cutDebt) :
    0 < run.cs.minEdges2Shard ↔
      ∀ k < run.cs.shardNum, debt k < touching run.cs.label edges k := by
  have hmax : (0 : ℤ) < maxInt := by decide
  rw [h.minEdges2Shard, minFrom_pos, and_iff_right hmax, h.edges2Shard]
  constructor
  · intro hall k hk
    have hpos := hall _ (mem_tally.mpr ⟨k, hk, rfl⟩)
    omega
  · intro hall x hx
    obtain ⟨k, hk, rfl⟩ := mem_tally.mp hx
    have hlt := hall k hk
    omega

/-- **One visit**: its scores are well defined exactly where the shards are touched. -/
theorem scoresDefined_iff (h : run.cs.Owes edges debt cutDebt) :
    ScoresDefined run v ↔ ShardsTouched edges (run, debt) v := by
  rw [ScoresDefined, ShardsTouched, ← minEdges2Shard_pos h]
  constructor
  · rintro hall ⟨uShard, hev⟩
    exact (hall uShard hev).2
  · intro hmin uShard hev
    obtain ⟨u, hu, -⟩ := hev.2
    exact ⟨List.length_pos_of_mem hu, hmin ⟨uShard, hev⟩⟩

/-- The debts of the counts are the loops that were moved. -/
theorem Tracked.owes_visit (h : Tracked edges extra cs₀ run)
    (howes : run.cs.Owes edges debt cutDebt) (hv : CLPAState.visit fl run v = some run') :
    ∃ cutDebt', run'.cs.Owes edges (fun k => debt k +
      if run.cs.label v ≠ run'.cs.label v ∧ (k = run.cs.label v ∨ k = run'.cs.label v) then
        (loops edges v : ℤ)
      else 0) cutDebt' := by
  rcases visit_cases hv with rfl | ⟨new, num, hne, hnew, -, -, hmove⟩
  · refine ⟨cutDebt, ?_⟩
    simpa using howes
  · obtain ⟨-, -, -, -, howes', -, -, hmap, -, -⟩ :=
      move_eq_some h.holds h.inRange howes hne hnew hmove
    refine ⟨cutDebt + 2 * loops edges v, ?_⟩
    have hlabel : run'.cs.label v = new := by rw [label_update hmap, Function.update_self]
    convert howes' using 3 with k
    rw [hlabel]
    split_ifs <;> omega

/-- **The scores of a run** are well defined exactly where the shards are touched. -/
theorem Tracked.scores_iff (h : Tracked edges extra cs₀ run)
    (howes : run.cs.Owes edges debt cutDebt) (vs : List Vertex) :
    AllSteps (CLPAState.visit fl) ScoresDefined run vs ↔
      AllSteps (visitLoops fl edges) (ShardsTouched edges) (run, debt) vs := by
  induction vs generalizing run debt cutDebt with
  | nil => exact Iff.rfl
  | cons v vs ih =>
    obtain ⟨run', hv⟩ := h.visit_isSome fl v
    obtain ⟨cutDebt', howes'⟩ := h.owes_visit howes hv
    have hstep := ih (h.visit hv) howes'
    have hloops : visitLoops fl edges (run, debt) v = some (run', fun k => debt k +
        if run.cs.label v ≠ run'.cs.label v ∧ (k = run.cs.label v ∨ k = run'.cs.label v) then
          (loops edges v : ℤ)
        else 0) := by
      rw [visitLoops, hv, Option.map_some]
    constructor
    · intro hall s hs
      obtain ⟨hdef, hrest⟩ := hall run' hv
      obtain rfl := Option.some.inj (hloops.symm.trans hs)
      exact ⟨(scoresDefined_iff howes).mp hdef, hstep.mp hrest⟩
    · intro hall r hr
      obtain ⟨htouched, hrest⟩ := hall _ hloops
      obtain rfl := Option.some.inj (hv.symm.trans hr)
      exact ⟨(scoresDefined_iff howes).mpr htouched, hstep.mpr hrest⟩

end Scores

/-- **The scores of CLPA are well defined**, in every visit of its run, exactly where at every
visit that computes scores each shard is touched by more edges than loops were moved in or out
of it. -/
theorem scores_defined_iff (hf : HashFns H) (fl : FloatOps F) (wp : F) (mIter sn : ℕ)
    (pm : Vertex → Option ℕ) (ops : List GraphOp) (cs start : CLPAState F)
    (hb : (CLPAState.init wp mIter sn pm).build hf ops = some cs)
    (hstart : cs.computeEdges2Shard = some start) (orders : ℕ → List Vertex) :
    AllSteps (visit fl) ScoresDefined (Run.start start) (start.visits orders) ↔
      AllSteps (visitLoops fl (edgesOf ops)) (ShardsTouched (edgesOf ops))
        (Run.start start, fun _ => 0) (start.visits orders) := by
  have hbuilt := (built_init wp mIter sn pm).build ops hb
  rw [List.nil_append, List.append_nil] at hbuilt
  obtain ⟨hcompute, htracked⟩ := hbuilt.tracked
  obtain rfl := Option.some.inj (hcompute.symm.trans hstart)
  exact htracked.scores_iff owes_counted _

/-- All shards are touched by more edges than loops were moved. -/
def AllTouched (edges : List (Vertex × Vertex)) (s : LoopRun F) (_ : Vertex) : Prop :=
  ∀ k < s.1.cs.shardNum, s.2 k < touching s.1.cs.label edges k

instance (edges : List (Vertex × Vertex)) (s : LoopRun F) (v : Vertex) :
    Decidable (AllTouched edges s v) :=
  inferInstanceAs (Decidable (∀ k < s.1.cs.shardNum, s.2 k < touching s.1.cs.label edges k))

/-- Five edges, of which one is a loop at `b`. -/
def loopEdges : List (Vertex × Vertex) :=
  [("a", "b"), ("a", "b"), ("b", "b"), ("c", "d"), ("c", "d")]

/-- `b` moves, its loop with it, and all scores are still defined. -/
theorem scores_defined_two :
    ∃ cs start, twoShards.build freeHash
        [.addEdge "a" "b", .addEdge "a" "b", .addEdge "b" "b", .addEdge "c" "d",
          .addEdge "c" "d"] = some cs ∧
      cs.computeEdges2Shard = some start ∧
      AllSteps (visit ratOps) ScoresDefined (Run.start start)
        (start.visits fun _ => ["b", "a", "c", "d"]) := by
  let ops : List GraphOp := [.addEdge "a" "b", .addEdge "a" "b", .addEdge "b" "b",
    .addEdge "c" "d", .addEdge "c" "d"]
  have hend : ((twoShards.build freeHash ops).bind computeEdges2Shard).any
      (fun start => (runWith (visitLoops ratOps loopEdges) (AllTouched loopEdges)
        (Run.start start, fun _ => 0)
        (start.visits fun _ => ["b", "a", "c", "d"])).isSome) = true := by decide +kernel
  obtain ⟨start, hbuild, hrun⟩ := (Option.any_eq_true _ _).mp hend
  obtain ⟨cs, hcs, hstart⟩ := Option.bind_eq_some_iff.mp hbuild
  obtain ⟨t, ht⟩ := Option.isSome_iff_exists.mp hrun
  have htouched : AllSteps (visitLoops ratOps loopEdges) (ShardsTouched loopEdges)
      (Run.start start, fun _ => 0) (start.visits fun _ => ["b", "a", "c", "d"]) :=
    AllSteps.of_runWith (Q := ShardsTouched loopEdges) (fun _ _ hall _ => hall) ht
  exact ⟨cs, start, hcs, hstart,
    (scores_defined_iff freeHash ratOps (1 / 2) 2 2 _ ops cs start hcs hstart _).mpr htouched⟩

/-- Two accounts of one shard: nothing touches the other shard, and the first score divides
by zero. -/
theorem scores_undefined :
    ¬ ∀ (ops : List GraphOp) (cs start : CLPAState ℚ), twoShards.build freeHash ops = some cs →
      cs.computeEdges2Shard = some start → ∀ orders,
        AllSteps (visit ratOps) ScoresDefined (Run.start start) (start.visits orders) := by
  intro hall
  have hend : ((twoShards.build freeHash [.addEdge "b" "c"]).bind computeEdges2Shard).any
      (fun start => decide (start.minEdges2Shard = 0 ∧ start.maxIterations = 2 ∧
        "c" ∈ start.netGraph.adjacent "b" ∧
        (visit ratOps (Run.start start) "b").isSome = true)) = true := by
    decide +kernel
  obtain ⟨start, hbuild, hstart⟩ := (Option.any_eq_true _ _).mp hend
  obtain ⟨cs, hcs, hcompute⟩ := Option.bind_eq_some_iff.mp hbuild
  obtain ⟨hmin, hiter, hadj, hvisit⟩ := of_decide_eq_true hstart
  obtain ⟨run, hrun⟩ := Option.isSome_iff_exists.mp hvisit
  have hsteps := hall _ cs start hcs hcompute fun _ => ["b"]
  rw [CLPAState.visits, hiter] at hsteps
  obtain ⟨hdefined, -⟩ := hsteps run hrun
  obtain ⟨-, hpos⟩ := hdefined _ ⟨show 0 < 50 by decide, "c", hadj, rfl⟩
  have hzero : (Run.start start).cs.minEdges2Shard = 0 := hmin
  omega

/-! ### Graphs of edges only -/

section EdgesOnly

variable {hf : HashFns H} {fl : FloatOps F} {cs cs' : CLPAState F} {run : Run F}
  {edges : List (Vertex × Vertex)}

/-- The calls that draw some edges. -/
def drawEdges (edges : List (Vertex × Vertex)) : List GraphOp :=
  edges.map fun e => .addEdge e.1 e.2

theorem edgesOf_drawEdges (edges : List (Vertex × Vertex)) : edgesOf (drawEdges edges) = edges := by
  induction edges with
  | nil => rfl
  | cons e edges ih =>
    rw [drawEdges, List.map_cons, edgesOf, List.filterMap_cons]
    exact congrArg (e :: ·) ih

theorem repeated_drawEdges (seen : Finset Vertex) (edges : List (Vertex × Vertex)) :
    repeated seen (drawEdges edges) = [] := by
  induction edges generalizing seen with
  | nil => rfl
  | cons e edges ih =>
    rw [drawEdges, List.map_cons, repeated]
    exact ih _

/-- Every vertex is an end of an edge. -/
theorem mem_of_drawEdges {all : List (Vertex × Vertex)} {twice : List Vertex}
    (hb : Built cs all twice) (hbuild : cs.build hf (drawEdges edges) = some cs') {w : Vertex}
    (hw : w ∈ cs'.netGraph.vertexSet) :
    w ∈ cs.netGraph.vertexSet ∨ ∃ e ∈ edges, e.1 = w ∨ e.2 = w := by
  induction edges generalizing cs all with
  | nil =>
    cases hbuild
    exact .inl hw
  | cons e edges ih =>
    rw [drawEdges, List.map_cons, CLPAState.build, List.foldlM_cons] at hbuild
    obtain ⟨cs₁, hadd, hrest⟩ := Option.bind_eq_some_iff.mp hbuild
    obtain ⟨hb₁, hset⟩ := hb.addEdge hadd
    rcases ih hb₁ hrest with hmem | ⟨e', he', hend⟩
    · rw [hset, Finset.mem_insert, Finset.mem_insert] at hmem
      rcases hmem with rfl | rfl | hmem
      · exact .inr ⟨e, List.mem_cons_self, .inr rfl⟩
      · exact .inr ⟨e, List.mem_cons_self, .inl rfl⟩
      · exact .inl hmem
    · exact .inr ⟨e', List.mem_cons_of_mem _ he', hend⟩

/-- A shard has a vertex exactly where an edge touches it. -/
theorem population_pos_iff {extra : ℕ → ℕ} {cs₀ : CLPAState F} (h : Tracked edges extra cs₀ run)
    (hends : ∀ w ∈ run.cs.netGraph.vertexSet, ∃ e ∈ edges, e.1 = w ∨ e.2 = w) (k : ℕ) :
    0 < run.cs.population k ↔ 0 < touching run.cs.label edges k := by
  rw [CLPAState.population, Finset.card_pos, touching_pos]
  constructor
  · rintro ⟨w, hw⟩
    obtain ⟨hmem, rfl⟩ := Finset.mem_filter.mp hw
    obtain ⟨e, he, rfl | rfl⟩ := hends w hmem
    · exact ⟨e, he, .inl rfl⟩
    · exact ⟨e, he, .inr rfl⟩
  · rintro ⟨e, he, rfl | rfl⟩
    · exact ⟨e.1, Finset.mem_filter.mpr ⟨(h.ends e he).1, rfl⟩⟩
    · exact ⟨e.2, Finset.mem_filter.mpr ⟨(h.ends e he).2, rfl⟩⟩

/-- **Edges without loops**: where each shard has a vertex, all scores of a run are defined. -/
theorem Tracked.scores_defined {cs₀ : CLPAState F} (hloop : ∀ e ∈ edges, e.1 ≠ e.2)
    (h : Tracked edges (fun _ => 0) cs₀ run) (howes : run.cs.Owes edges (fun _ => 0) 0)
    (hends : ∀ w ∈ run.cs.netGraph.vertexSet, ∃ e ∈ edges, e.1 = w ∨ e.2 = w)
    (hpop : ∀ k < run.cs.shardNum, 0 < run.cs.population k) (vs : List Vertex) :
    AllSteps (CLPAState.visit fl) ScoresDefined run vs := by
  induction vs generalizing run with
  | nil => trivial
  | cons v vs ih =>
    intro run' hv
    refine ⟨(scoresDefined_iff howes).mpr fun _ k hk => ?_, ?_⟩
    · have hpos := (population_pos_iff h hends k).mp (hpop k hk)
      change (0 : ℤ) < touching run.cs.label edges k
      exact_mod_cast hpos
    · have hexact := Exact.visit hloop ⟨h.holds, h.inRange, howes⟩ hv
      have hsame : run'.cs.netGraph = run.cs.netGraph ∧ run'.cs.shardNum = run.cs.shardNum := by
        rcases h.visit_moves hv with rfl | ⟨-, -, -, -, -, hgraph, hsn, -, -⟩
        · exact ⟨rfl, rfl⟩
        · exact ⟨hgraph, hsn⟩
      refine ih (h.visit hv) hexact.owes (hsame.1 ▸ hends) fun k hk => ?_
      exact h.population_pos hv (hpop k (hsame.2 ▸ hk))

/-- **Over a graph of edges without loops** the scores of a run that visits a vertex are
defined exactly where no shard is empty at the start. -/
theorem scores_defined_iff_nonempty (wp : F) (mIter sn : ℕ) (pm : Vertex → Option ℕ)
    (hloop : ∀ e ∈ edges, e.1 ≠ e.2) {start : CLPAState F}
    (hb : (CLPAState.init wp mIter sn pm).build hf (drawEdges edges) = some cs)
    (hstart : cs.computeEdges2Shard = some start) {v : Vertex} {vs : List Vertex}
    (hv : v ∈ cs.netGraph.vertexSet) :
    AllSteps (visit fl) ScoresDefined (Run.start start) (v :: vs) ↔
      ∀ k < cs.shardNum, 0 < cs.population k := by
  have hinit := built_init wp mIter sn pm
  have hbuilt := hinit.build _ hb
  rw [List.nil_append, List.append_nil, edgesOf_drawEdges, repeated_drawEdges] at hbuilt
  obtain ⟨hcompute, htracked⟩ := hbuilt.tracked
  obtain rfl := Option.some.inj (hcompute.symm.trans hstart)
  have hends : ∀ w ∈ cs.netGraph.vertexSet, ∃ e ∈ edges, e.1 = w ∨ e.2 = w := fun w hw =>
    (mem_of_drawEdges hinit hb hw).resolve_left (Finset.notMem_empty w)
  constructor
  · intro hall k hk
    obtain ⟨run', hvisit⟩ := htracked.visit_isSome fl v
    obtain ⟨hdefined, -⟩ := hall run' hvisit
    have htouched := (scoresDefined_iff owes_counted).mp hdefined
    -- the first vertex has a neighbour, so there are scores
    obtain ⟨e, he, hend⟩ := hends v hv
    have hev : ∃ uShard, Evaluates (Run.start (cs.counted edges)) v uShard := by
      rcases hend with rfl | rfl
      · exact ⟨_, show 0 < 50 by decide, e.2, by
          rw [htracked.holds.adjacent]; exact mem_neighbours.mpr ⟨e, he, .inl ⟨rfl, rfl⟩⟩, rfl⟩
      · exact ⟨_, show 0 < 50 by decide, e.1, by
          rw [htracked.holds.adjacent]; exact mem_neighbours.mpr ⟨e, he, .inr ⟨rfl, rfl⟩⟩, rfl⟩
    have hpos : (0 : ℤ) < touching cs.label edges k := htouched hev k hk
    exact (population_pos_iff htracked hends k).mpr (by exact_mod_cast hpos)
  · intro hpop
    exact htracked.scores_defined hloop owes_counted hends hpop _

end EdgesOnly

end Partition

end BlockEmulator
