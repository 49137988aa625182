import BlockEmulator.StepSystem
import Mathlib.Algebra.Order.BigOperators.Group.List
import Mathlib.Algebra.Order.Ring.Nat

/-!
# Threads that interleave

A `Pool` is a shared state with the threads that run over it. A thread is given by what
one step of it does: to the shared state, to itself, and which threads it starts. Any
thread may take the next step, so that the runs of a pool are all interleavings.

* `Pool.total` — the sum of a weight over the threads: how many of them are at some
  place of their code.
* `Pool.step_cases` — **what a step does to every sum**: the weight of one thread is
  replaced, and those of the started threads are added. An invariant that speaks of
  sums is shown for one thread at a time.
-/

namespace Interleaving

variable {σ γ α : Type}

/-- A shared state and its threads. -/
structure Pool (σ γ : Type) where
  /-- what all threads see -/
  shared : σ
  /-- the threads, in the order in which they were started -/
  threads : List γ
  deriving DecidableEq

namespace Pool

/-- One step of the thread at an index. -/
def step (thread : σ → γ → α → Option (σ × γ × List γ)) (p : Pool σ γ) (e : ℕ × α) :
    Option (Pool σ γ) :=
  p.threads[e.1]?.bind fun g =>
    (thread p.shared g e.2).map fun r =>
      { shared := r.1, threads := p.threads.set e.1 r.2.1 ++ r.2.2 }

/-- The sum of a weight over the threads. -/
def total (p : Pool σ γ) (w : γ → ℕ) : ℕ := (p.threads.map w).sum

variable {p p' : Pool σ γ}

theorem total_mono {w w' : γ → ℕ} (h : ∀ g, w g ≤ w' g) : p.total w ≤ p.total w' :=
  List.sum_le_sum fun g _ => h g

theorem total_add (w w' : γ → ℕ) : p.total (fun g => w g + w' g) = p.total w + p.total w' :=
  List.sum_map_add

theorem le_total {g : γ} (h : g ∈ p.threads) (w : γ → ℕ) : w g ≤ p.total w :=
  List.single_le_sum (fun _ _ => Nat.zero_le _) _ (List.mem_map_of_mem h)

/-- A weight that two places of the code never have together. -/
theorem total_add_le {w w' v : γ → ℕ} (h : ∀ g, w g + w' g ≤ v g) :
    p.total w + p.total w' ≤ p.total v :=
  total_add w w' ▸ total_mono h

/-- One thread is replaced. -/
theorem sum_set_add (l : List γ) {i : ℕ} {g : γ} (h : l[i]? = some g) (g' : γ) (w : γ → ℕ) :
    ((l.set i g').map w).sum + w g = (l.map w).sum + w g' := by
  induction l generalizing i with
  | nil => simp at h
  | cons a l ih =>
    cases i with
    | zero =>
      obtain rfl : a = g := by simpa using h
      simp only [List.set_cons_zero, List.map_cons, List.sum_cons]
      omega
    | succ i =>
      have := ih (by simpa using h)
      simp only [List.set_cons_succ, List.map_cons, List.sum_cons]
      omega

/-- **What a step does to every sum.** -/
theorem step_cases {thread : σ → γ → α → Option (σ × γ × List γ)} {e : ℕ × α}
    (h : p.step thread e = some p') :
    ∃ g s' g' new, thread p.shared g e.2 = some (s', g', new) ∧ p'.shared = s' ∧
      (∀ w, w g ≤ p.total w) ∧
      ∀ w, p'.total w + w g = p.total w + w g' + (new.map w).sum := by
  obtain ⟨g, hg, hthread⟩ := Option.bind_eq_some_iff.mp h
  obtain ⟨⟨s', g', new⟩, hstep, rfl⟩ := Option.map_eq_some_iff.mp hthread
  refine ⟨g, s', g', new, hstep, rfl, le_total (List.mem_of_getElem? hg), fun w => ?_⟩
  have hset := sum_set_add p.threads hg g' w
  simp only [total, List.map_append, List.sum_append]
  omega

end Pool

end Interleaving
