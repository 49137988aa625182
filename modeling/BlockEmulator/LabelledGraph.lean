import Mathlib.Data.List.Count
import Mathlib.Algebra.BigOperators.Group.Finset.Basic
import Mathlib.Algebra.BigOperators.Intervals
import Mathlib.Algebra.Order.Ring.Int
import Mathlib.Tactic.Ring
import Mathlib.Tactic.Linarith

/-!
# Labelled multigraphs

An undirected multigraph is a list of edges; loops and parallel edges are allowed. A
labelling gives every vertex a number. `touching` counts the edges with an end of a label,
`cut` those whose ends differ.

* `crossInto_darts`, `inner_darts` — both from the directed edges, each counted from its
  two ends.
* `touching_update`, `cut_update` — **how they change when one vertex changes its label**:
  by a term for each neighbour, and a correction for each loop.
-/

namespace LabelledGraph

variable {V : Type*} [DecidableEq V]

/-- The edges with an end of a label. -/
def touching (lab : V → ℕ) (edges : List (V × V)) (k : ℕ) : ℕ :=
  edges.countP fun e => lab e.1 = k ∨ lab e.2 = k

/-- The edges whose ends have different labels. -/
def cut (lab : V → ℕ) (edges : List (V × V)) : ℕ := edges.countP fun e => lab e.1 ≠ lab e.2

/-- Every edge, in both directions. -/
def darts (edges : List (V × V)) : List (V × V) :=
  edges.flatMap fun e => [(e.1, e.2), (e.2, e.1)]

/-- The neighbours of a vertex, once for every end of an edge that is at it. -/
def neighbours (edges : List (V × V)) (v : V) : List V :=
  edges.flatMap fun e => (if e.1 = v then [e.2] else []) ++ if e.2 = v then [e.1] else []

/-- The loops at a vertex. -/
def loops (edges : List (V × V)) (v : V) : ℕ := edges.countP fun e => e.1 = v ∧ e.2 = v

/-- The directed edges into a label from another one. -/
def crossInto (lab : V → ℕ) (ds : List (V × V)) (k : ℕ) : ℕ :=
  ds.countP fun d => lab d.1 ≠ lab d.2 ∧ lab d.2 = k

/-- The directed edges inside a label. -/
def innerInto (lab : V → ℕ) (ds : List (V × V)) (k : ℕ) : ℕ :=
  ds.countP fun d => lab d.1 = lab d.2 ∧ lab d.2 = k

section Static

variable {lab : V → ℕ} {edges : List (V × V)} {k : ℕ}

omit [DecidableEq V] in
theorem darts_cons (e : V × V) (edges : List (V × V)) :
    darts (e :: edges) = (e.1, e.2) :: (e.2, e.1) :: darts edges := rfl

theorem neighbours_cons (e : V × V) (edges : List (V × V)) (v : V) :
    neighbours (e :: edges) v =
      ((if e.1 = v then [e.2] else []) ++ if e.2 = v then [e.1] else []) ++ neighbours edges v :=
  rfl

omit [DecidableEq V] in
theorem touching_cons (lab : V → ℕ) (e : V × V) (edges : List (V × V)) (k : ℕ) :
    touching lab (e :: edges) k =
      touching lab edges k + if lab e.1 = k ∨ lab e.2 = k then 1 else 0 := by
  rw [touching, List.countP_cons, touching]
  simp only [decide_eq_true_eq]

omit [DecidableEq V] in
theorem cut_cons (lab : V → ℕ) (e : V × V) (edges : List (V × V)) :
    cut lab (e :: edges) = cut lab edges + if lab e.1 ≠ lab e.2 then 1 else 0 := by
  rw [cut, List.countP_cons, cut]
  simp only [decide_eq_true_eq]

theorem loops_cons (e : V × V) (edges : List (V × V)) (v : V) :
    loops (e :: edges) v = loops edges v + if e.1 = v ∧ e.2 = v then 1 else 0 := by
  rw [loops, List.countP_cons, loops]
  simp only [decide_eq_true_eq]

omit [DecidableEq V] in
theorem crossInto_cons (lab : V → ℕ) (d : V × V) (ds : List (V × V)) (k : ℕ) :
    crossInto lab (d :: ds) k =
      crossInto lab ds k + if lab d.1 ≠ lab d.2 ∧ lab d.2 = k then 1 else 0 := by
  rw [crossInto, List.countP_cons, crossInto]
  simp only [decide_eq_true_eq]

omit [DecidableEq V] in
theorem innerInto_cons (lab : V → ℕ) (d : V × V) (ds : List (V × V)) (k : ℕ) :
    innerInto lab (d :: ds) k = innerInto lab ds k + if lab d.1 = lab d.2 ∧ lab d.2 = k then 1 else 0 := by
  rw [innerInto, List.countP_cons, innerInto]
  simp only [decide_eq_true_eq]

omit [DecidableEq V] in
/-- **Each edge counts once** at a label it touches: from one of its ends when it comes from
another label, from both when it does not. -/
theorem touching_eq (lab : V → ℕ) (edges : List (V × V)) (k : ℕ) :
    touching lab edges k = crossInto lab (darts edges) k + innerInto lab (darts edges) k / 2 := by
  have htwo : ∃ m, innerInto lab (darts edges) k = 2 * m ∧
      touching lab edges k = crossInto lab (darts edges) k + m := by
    induction edges with
    | nil => exact ⟨0, rfl, rfl⟩
    | cons e edges ih =>
      obtain ⟨m, hinner, htouch⟩ := ih
      refine ⟨m + if lab e.1 = lab e.2 ∧ lab e.2 = k then 1 else 0, ?_, ?_⟩
      · rw [darts_cons, innerInto_cons, innerInto_cons, hinner]
        dsimp only
        split_ifs <;> omega
      · rw [darts_cons, touching_cons, crossInto_cons, crossInto_cons, htouch]
        dsimp only
        split_ifs <;> omega
  obtain ⟨m, hinner, htouch⟩ := htwo
  rw [htouch, hinner, Nat.mul_div_cancel_left m (by decide)]

omit [DecidableEq V] in
/-- **Each edge of the cut counts twice** over all labels. -/
theorem sum_crossInto {n : ℕ} (h : ∀ e ∈ edges, lab e.1 < n ∧ lab e.2 < n) :
    ∑ k ∈ Finset.range n, crossInto lab (darts edges) k = 2 * cut lab edges := by
  induction edges with
  | nil => exact Finset.sum_const_zero
  | cons e edges ih =>
    rw [List.forall_mem_cons] at h
    simp only [darts_cons, crossInto_cons, Finset.sum_add_distrib]
    rw [ih h.2, cut_cons]
    by_cases heq : lab e.1 = lab e.2
    · simp [heq]
    · have hne : lab e.2 ≠ lab e.1 := fun h => heq h.symm
      simp [heq, hne, h.1.1, h.1.2]
      omega

end Static

/-! ## One vertex changes its label -/

/-- What a neighbour of a label adds to the edges that touch `k`, when a vertex goes from
`old` to `new`. -/
def touchDelta (new old k x : ℕ) : ℤ :=
  if x ≠ new ∧ x ≠ old then (if k = new then 1 else 0) + if k = old then -1 else 0
  else if x = new then if k = old then -1 else 0
  else if k = new then 1 else 0

/-- What it adds to the cut. -/
def cutDelta (new old x : ℕ) : ℤ :=
  if x ≠ new ∧ x ≠ old then 0 else if x = new then -1 else 1

/-- An edge whose other end has the label `x`, when its end at the vertex goes from `old` to
`new`. -/
theorem touchDelta_edge {new old : ℕ} (hne : old ≠ new) (k x : ℕ) :
    (if new = k ∨ x = k then 1 else 0 : ℤ) =
      (if old = k ∨ x = k then 1 else 0) + touchDelta new old k x := by
  unfold touchDelta
  split_ifs <;> omega

/-- A loop: the two entries see the new label. -/
theorem touchDelta_loop (new old k : ℕ) :
    (if new = k then 1 else 0 : ℤ) = (if old = k then 1 else 0) +
      (touchDelta new old k new + touchDelta new old k new) +
      ((if k = new then 1 else 0) + if k = old then 1 else 0) := by
  have hself : touchDelta new old k new = if k = old then -1 else 0 := by
    rw [touchDelta, if_neg fun h => h.1 rfl, if_pos rfl]
  simp only [hself, eq_comm (a := k)]
  split_ifs <;> ring

/-- An edge to another vertex, in or out of the cut. -/
theorem cutDelta_edge {new old : ℕ} (hne : old ≠ new) (x : ℕ) :
    (if new ≠ x then 1 else 0 : ℤ) = (if old ≠ x then 1 else 0) + cutDelta new old x := by
  unfold cutDelta
  split_ifs <;> omega

theorem cutDelta_self (new old : ℕ) : cutDelta new old new = -1 := by
  rw [cutDelta, if_neg fun h => h.1 rfl, if_pos rfl]

section Update

variable {lab : V → ℕ} {edges : List (V × V)} {v : V} {new : ℕ}

/-- **The edges that touch a label** when a vertex changes its label: each neighbour adds its
term, read with the new labels, and each loop is short by one at both labels. -/
theorem touching_update (hne : lab v ≠ new) (edges : List (V × V)) (k : ℕ) :
    (touching (Function.update lab v new) edges k : ℤ) = touching lab edges k +
      ((neighbours edges v).map fun u =>
        touchDelta new (lab v) k (Function.update lab v new u)).sum +
      loops edges v * ((if k = new then 1 else 0) + if k = lab v then 1 else 0) := by
  induction edges with
  | nil => simp [touching, neighbours, loops]
  | cons e edges ih =>
    rw [touching_cons, touching_cons, neighbours_cons, loops_cons, List.map_append,
      List.sum_append]
    push_cast
    rw [ih]
    by_cases h₁ : e.1 = v
    · by_cases h₂ : e.2 = v
      · simp only [h₁, h₂, Function.update_self, and_self, or_self, if_true, List.cons_append,
          List.nil_append, List.map_cons, List.map_nil, List.sum_cons, List.sum_nil]
        linarith only [touchDelta_loop new (lab v) k]
      · simp only [h₁, h₂, Function.update_self, Function.update_of_ne h₂, and_false, if_true,
          if_false, List.append_nil, List.map_cons, List.map_nil, List.sum_cons, List.sum_nil]
        linarith only [touchDelta_edge hne k (lab e.2)]
    · by_cases h₂ : e.2 = v
      · simp only [h₁, h₂, Function.update_self, Function.update_of_ne h₁, false_and, if_true,
          if_false, List.nil_append, List.map_cons, List.map_nil, List.sum_cons, List.sum_nil,
          or_comm (a := lab e.1 = k)]
        linarith only [touchDelta_edge hne k (lab e.1)]
      · simp only [h₁, h₂, Function.update_of_ne h₁, Function.update_of_ne h₂, and_self, if_false,
          List.append_nil, List.map_nil, List.sum_nil]
        ring

/-- **The cut** when a vertex changes its label: each neighbour adds its term, and each loop
is counted off twice. -/
theorem cut_update (hne : lab v ≠ new) (edges : List (V × V)) :
    (cut (Function.update lab v new) edges : ℤ) = cut lab edges +
      ((neighbours edges v).map fun u => cutDelta new (lab v) (Function.update lab v new u)).sum +
      2 * loops edges v := by
  induction edges with
  | nil => simp [cut, neighbours, loops]
  | cons e edges ih =>
    rw [cut_cons, cut_cons, neighbours_cons, loops_cons, List.map_append, List.sum_append]
    push_cast
    rw [ih]
    by_cases h₁ : e.1 = v
    · by_cases h₂ : e.2 = v
      · simp only [h₁, h₂, Function.update_self, and_self, if_true, List.cons_append,
          List.nil_append, List.map_cons, List.map_nil, List.sum_cons, List.sum_nil, ne_eq,
          not_true_eq_false, if_false, cutDelta_self]
        ring
      · simp only [h₁, h₂, Function.update_self, Function.update_of_ne h₂, and_false, if_true,
          if_false, List.append_nil, List.map_cons, List.map_nil, List.sum_cons, List.sum_nil]
        linarith only [cutDelta_edge hne (lab e.2)]
    · by_cases h₂ : e.2 = v
      · simp only [h₁, h₂, Function.update_self, Function.update_of_ne h₁, false_and, if_true,
          if_false, List.nil_append, List.map_cons, List.map_nil, List.sum_cons, List.sum_nil,
          ne_comm (a := lab e.1)]
        linarith only [cutDelta_edge hne (lab e.1)]
      · simp only [h₁, h₂, Function.update_of_ne h₁, Function.update_of_ne h₂, and_self, if_false,
          List.append_nil, List.map_nil, List.sum_nil]
        ring

end Update

/-! ## Adding edges -/

section Add

variable {lab : V → ℕ} {edges : List (V × V)} {u v : V}

omit [DecidableEq V] in
theorem touching_pos {k : ℕ} :
    0 < touching lab edges k ↔ ∃ e ∈ edges, lab e.1 = k ∨ lab e.2 = k := by
  simp [touching, List.countP_pos_iff]

theorem loops_eq_zero (h : ∀ e ∈ edges, e.1 ≠ e.2) (v : V) : loops edges v = 0 := by
  rw [loops, List.countP_eq_zero]
  intro e he hboth
  rw [decide_eq_true_eq] at hboth
  exact h e he (hboth.1.trans hboth.2.symm)

theorem mem_neighbours :
    u ∈ neighbours edges v ↔ ∃ e ∈ edges, (e.1 = v ∧ e.2 = u) ∨ (e.2 = v ∧ e.1 = u) := by
  rw [neighbours, List.mem_flatMap]
  refine exists_congr fun e => and_congr_right fun _ => ?_
  rw [List.mem_append]
  split_ifs <;> simp_all [eq_comm]

theorem neighbours_append (e : V × V) (v : V) :
    neighbours (edges ++ [e]) v = neighbours edges v ++
      ((if e.1 = v then [e.2] else []) ++ if e.2 = v then [e.1] else []) := by
  rw [neighbours, List.flatMap_append, List.flatMap_singleton, neighbours]

omit [DecidableEq V] in
theorem darts_append (e : V × V) :
    darts (edges ++ [e]) = darts edges ++ [(e.1, e.2), (e.2, e.1)] := by
  rw [darts, List.flatMap_append, List.flatMap_singleton, darts]

omit [DecidableEq V] in
theorem mem_darts : (u, v) ∈ darts edges ↔ (u, v) ∈ edges ∨ (v, u) ∈ edges := by
  rw [darts, List.mem_flatMap]
  constructor
  · rintro ⟨e, he, hmem⟩
    rcases List.mem_pair.mp hmem with heq | heq
    · exact .inl (heq ▸ he)
    · cases heq
      exact .inr he
  · rintro (he | he)
    · exact ⟨_, he, by simp⟩
    · exact ⟨_, he, by simp⟩

end Add

end LabelledGraph
