import BlockEmulator.Counters
import BlockEmulator.LabelledGraph
import BlockEmulator.StepSystem
import BlockEmulator.Transaction
import Mathlib.Data.List.AList

/-!
# The label propagation of CLPA (`partition/graph.go`, `partition/partition_CLPA.go`)

The supervisor draws an edge between the two accounts of every transaction, and moves
accounts between shards so that fewer edges cross. `CLPA_Partition` visits all vertices,
iteration after iteration, and moves a vertex to the shard of its neighbours with the best
score. What the score needs is counted once at the start and then kept up with every move.

* A Go map that is iterated over is an `AList`, its entries in the order of the iteration;
  in which order an iteration visits the vertices is a parameter.
* Scores are of a type `F` with the operations of `float64` (`FloatOps`).
* An index that is out of range is a panic, `none` here.
-/

namespace BlockEmulator

namespace Partition

open Counters LabelledGraph

/-! ## Graphs -/

/-- `Vertex`: its address. -/
abbrev Vertex : Type := Address

/-- `Graph`. -/
structure Graph where
  /-- `VertexSet` -/
  vertexSet : Finset Vertex
  /-- `EdgeSet` -/
  edgeSet : AList fun _ : Vertex => List Vertex

namespace Graph

/-- A graph without vertices. -/
def empty : Graph := ⟨∅, ∅⟩

/-- `EdgeSet[v]`. -/
def adjacent (g : Graph) (v : Vertex) : List Vertex := (g.edgeSet.lookup v).getD []

/-- `AddVertex`. -/
def addVertex (g : Graph) (v : Vertex) : Graph := { g with vertexSet := insert v g.vertexSet }

/-- One of the two appends of `AddEdge`. -/
def addDart (g : Graph) (u v : Vertex) : Graph :=
  { g with edgeSet := g.edgeSet.insert u (g.adjacent u ++ [v]) }

/-- `AddEdge`. -/
def addEdge (g : Graph) (u v : Vertex) : Graph :=
  let g := if u ∈ g.vertexSet then g else g.addVertex u
  let g := if v ∈ g.vertexSet then g else g.addVertex v
  (g.addDart u v).addDart v u

/-- The pairs that the two loops over `EdgeSet` go through. -/
def pairs (g : Graph) : List (Vertex × Vertex) :=
  g.edgeSet.entries.flatMap fun e => e.2.map fun u => (e.1, u)

/-- The graph that `AddEdge` builds. -/
def ofEdges (edges : List (Vertex × Vertex)) : Graph :=
  edges.foldl (fun g e => g.addEdge e.1 e.2) empty

end Graph

/-! ## The state -/

/-- The operations of `float64` that scores are made with. -/
structure FloatOps (F : Type) where
  /-- `float64(n)` -/
  ofInt : ℤ → F
  /-- `*` -/
  mul : F → F → F
  /-- `-` -/
  sub : F → F → F
  /-- `/` -/
  div : F → F → F
  /-- `<` -/
  lt : F → F → Bool

/-- `CLPAState`, without `GraphHash`. -/
structure CLPAState (F : Type) where
  /-- `NetGraph` -/
  netGraph : Graph
  /-- `PartitionMap` -/
  partitionMap : Vertex → Option ℕ
  /-- `Edges2Shard` -/
  edges2Shard : List ℤ
  /-- `VertexsNumInShard` -/
  vertexsNumInShard : List ℤ
  /-- `WeightPenalty` -/
  weightPenalty : F
  /-- `MinEdges2Shard` -/
  minEdges2Shard : ℤ
  /-- `MaxIterations` -/
  maxIterations : ℕ
  /-- `CrossShardEdgeNum` -/
  crossShardEdgeNum : ℤ
  /-- `ShardNum` -/
  shardNum : ℕ

/-- `math.MaxInt`. -/
def maxInt : ℤ := 2 ^ 63 - 1

namespace CLPAState

variable {F H : Type}

/-- A new state after `Init_CLPAState`, and with the labels that the supervisor puts in
before any vertex (`clpaReset`). -/
def init (wp : F) (mIter sn : ℕ) (partitionMap : Vertex → Option ℕ) : CLPAState F where
  netGraph := .empty
  partitionMap := partitionMap
  edges2Shard := []
  vertexsNumInShard := List.replicate sn 0
  weightPenalty := wp
  minEdges2Shard := 0
  maxIterations := mIter
  crossShardEdgeNum := 0
  shardNum := sn

/-- `PartitionMap[v]`: zero where there is no entry. -/
def label (cs : CLPAState F) (v : Vertex) : ℕ := (cs.partitionMap v).getD 0

/-- `AddVertex`. -/
def addVertex (hf : HashFns H) (cs : CLPAState F) (v : Vertex) : Option (CLPAState F) :=
  let val := (cs.partitionMap v).getD (addr2ShardWithShardNum hf v cs.shardNum)
  (addAt cs.vertexsNumInShard val 1).map fun vertexsNumInShard =>
    { cs with
      netGraph := cs.netGraph.addVertex v
      partitionMap := Function.update cs.partitionMap v (some val)
      vertexsNumInShard := vertexsNumInShard }

/-- `AddVertex` for a vertex that is not there yet. -/
def ensureVertex (hf : HashFns H) (cs : CLPAState F) (v : Vertex) : Option (CLPAState F) :=
  if v ∈ cs.netGraph.vertexSet then some cs else cs.addVertex hf v

/-- `AddEdge`. -/
def addEdge (hf : HashFns H) (cs : CLPAState F) (u v : Vertex) : Option (CLPAState F) :=
  (cs.ensureVertex hf u).bind fun cs =>
    (cs.ensureVertex hf v).map fun cs => { cs with netGraph := cs.netGraph.addEdge u v }

/-! ## Counting from scratch -/

/-- The body of the two loops of `ComputeEdges2Shard`, over `Edges2Shard` and `interEdge`. -/
def countPair (lab : Vertex → ℕ) (c : List ℤ × List ℤ) (d : Vertex × Vertex) :
    Option (List ℤ × List ℤ) :=
  if lab d.1 ≠ lab d.2 then (addAt c.1 (lab d.2) 1).map fun edges => (edges, c.2)
  else (addAt c.2 (lab d.2) 1).map fun interEdge => (c.1, interEdge)

/-- The end of `ComputeEdges2Shard`. -/
def finishCount (cs : CLPAState F) (c : List ℤ × List ℤ) : CLPAState F :=
  let edges2Shard := List.zipWith (fun e i => e + i / 2) c.1 c.2
  { cs with
    edges2Shard := edges2Shard
    crossShardEdgeNum := c.1.sum / 2
    minEdges2Shard := minFrom maxInt edges2Shard }

/-- `ComputeEdges2Shard`. -/
def computeEdges2Shard (cs : CLPAState F) : Option (CLPAState F) :=
  (cs.netGraph.pairs.foldlM (countPair cs.label)
    (List.replicate cs.shardNum 0, List.replicate cs.shardNum 0)).map cs.finishCount

/-! ## Keeping up with a move -/

/-- The body of the loop of `changeShardRecompute`, over `Edges2Shard` and
`CrossShardEdgeNum`. -/
def recomputeNeighbour (new old : ℕ) (c : List ℤ × ℤ) (neighborShard : ℕ) :
    Option (List ℤ × ℤ) :=
  if neighborShard ≠ new ∧ neighborShard ≠ old then
    (addAt c.1 new 1).bind fun edges => (addAt edges old (-1)).map fun edges => (edges, c.2)
  else if neighborShard = new then (addAt c.1 old (-1)).map fun edges => (edges, c.2 - 1)
  else (addAt c.1 new 1).map fun edges => (edges, c.2 + 1)

/-- `changeShardRecompute`. -/
def changeShardRecompute (cs : CLPAState F) (v : Vertex) (old : ℕ) : Option (CLPAState F) :=
  (((cs.netGraph.adjacent v).map cs.label).foldlM (recomputeNeighbour (cs.label v) old)
    (cs.edges2Shard, cs.crossShardEdgeNum)).map fun c =>
      { cs with
        edges2Shard := c.1
        crossShardEdgeNum := c.2
        minEdges2Shard := minFrom maxInt c.1 }

/-! ## Scores -/

variable (fl : FloatOps F)

/-- `getShard_score`. -/
def getShardScore (cs : CLPAState F) (v : Vertex) (uShard : ℕ) : Option F :=
  cs.edges2Shard[uShard]?.map fun edges =>
    let vOutdegree : ℤ := (cs.netGraph.adjacent v).length
    let edgestoUShard : ℤ := (cs.netGraph.adjacent v).countP fun item => cs.label item = uShard
    fl.mul (fl.div (fl.ofInt edgestoUShard) (fl.ofInt vOutdegree))
      (fl.sub (fl.ofInt 1)
        (fl.div (fl.mul cs.weightPenalty (fl.ofInt edges)) (fl.ofInt cs.minEdges2Shard)))

/-- The variables of the loop over the neighbours. -/
structure Scoring (F : Type) where
  /-- `neighborShardScore` -/
  neighborShardScore : ℕ → Option F
  /-- `max_score` -/
  maxScore : F
  /-- `max_scoreShard` -/
  maxScoreShard : ℕ

/-- The body of the loop over the neighbours. -/
def scoreNeighbour (cs : CLPAState F) (v : Vertex) (s : Scoring F) (uShard : ℕ) :
    Option (Scoring F) :=
  match s.neighborShardScore uShard with
  | some _ => some s
  | none =>
    (cs.getShardScore fl v uShard).map fun score =>
      let scores := Function.update s.neighborShardScore uShard (some score)
      if fl.lt s.maxScore score then ⟨scores, score, uShard⟩
      else ⟨scores, s.maxScore, s.maxScoreShard⟩

/-- The loop over the neighbours: the shard with the best score. -/
def bestShard (cs : CLPAState F) (v : Vertex) : Option ℕ :=
  (((cs.netGraph.adjacent v).map cs.label).foldlM (cs.scoreNeighbour fl v)
    ⟨fun _ => none, fl.ofInt (-9999), cs.label v⟩).map (·.maxScoreShard)

/-! ## Moving vertices -/

/-- The variables of `CLPA_Partition`. -/
structure Run (F : Type) where
  /-- the state -/
  cs : CLPAState F
  /-- `res` -/
  res : Vertex → Option ℕ
  /-- `updateTreshold` -/
  updateTreshold : Vertex → ℕ

/-- `CLPA_Partition` behind its first count. -/
def Run.start (cs : CLPAState F) : Run F := ⟨cs, fun _ => none, fun _ => 0⟩

/-- The end of the loop body: a vertex goes to another shard. -/
def Run.move (run : Run F) (v : Vertex) (maxScoreShard : ℕ) : Option (Run F) :=
  let vNowShard := run.cs.label v
  (addAt run.cs.vertexsNumInShard vNowShard (-1)).bind fun nums =>
    (addAt nums maxScoreShard 1).bind fun nums =>
      (({ run.cs with
          partitionMap := Function.update run.cs.partitionMap v (some maxScoreShard)
          vertexsNumInShard := nums } : CLPAState F).changeShardRecompute v vNowShard).map fun cs =>
        { cs := cs
          res := Function.update run.res v (some maxScoreShard)
          updateTreshold :=
            Function.update run.updateTreshold v (run.updateTreshold v + 1) }

/-- The loop body of `CLPA_Partition`. -/
def visit (run : Run F) (v : Vertex) : Option (Run F) :=
  if 50 ≤ run.updateTreshold v then some run
  else
    (run.cs.bestShard fl v).bind fun maxScoreShard =>
      if run.cs.label v = maxScoreShard then some run
      else
        run.cs.vertexsNumInShard[run.cs.label v]?.bind fun num =>
          -- the last vertex of a shard stays
          if 1 < num then run.move v maxScoreShard else some run

/-- The visits of all iterations; `orders` says in which order each goes over the
vertices. -/
def visits (cs : CLPAState F) (orders : ℕ → List Vertex) : List Vertex :=
  (List.range cs.maxIterations).flatMap orders

/-- `CLPA_Partition`: the moves, the edges that still cross, and the state behind it. -/
def clpaPartition (cs : CLPAState F) (orders : ℕ → List Vertex) :
    Option ((Vertex → Option ℕ) × ℤ × CLPAState F) :=
  cs.computeEdges2Shard.bind fun cs =>
    ((cs.visits orders).foldlM (visit fl) (Run.start cs)).bind fun run =>
      run.cs.computeEdges2Shard.map fun cs => (run.res, cs.crossShardEdgeNum, cs)

end CLPAState

end Partition

end BlockEmulator
