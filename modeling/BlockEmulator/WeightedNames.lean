import Mathlib.Algebra.BigOperators.Ring.List
import Mathlib.Algebra.Field.Basic
import Mathlib.Data.List.Basic
import Mathlib.Data.List.GetD
import Mathlib.Data.List.Induction
import Mathlib.Data.List.Nodup
import Mathlib.Tactic.Ring

/-!
# Names with weights

Entries name things, some of them more than once, and a list of weights goes along with
them, which may be too short. Two ways to give each name one weight: that of its first
entry, or the sum over all its entries.

* `firstNames` — the names in the order of their first entries.
* `totalWeight_eq_firstWeight` — without repetition the two ways agree.
* `shares_eq_iff` — **shares are the same exactly where weights are in proportion**.
-/

namespace BlockEmulator

section

variable {α : Type*} [DecidableEq α]

/-- A name goes to the end, unless it is there. -/
def appendNew (names : List α) (name : α) : List α :=
  if name ∈ names then names else names ++ [name]

/-- The names of entries, in the order of their first occurrence. -/
def firstNames (entries : List α) : List α := entries.foldl appendNew []

@[simp] theorem mem_appendNew {names : List α} {name a : α} :
    a ∈ appendNew names name ↔ a ∈ names ∨ a = name := by
  rw [appendNew]
  split
  · next h =>
    refine ⟨.inl, ?_⟩
    rintro (ha | rfl)
    · exact ha
    · exact h
  · rw [List.mem_append, List.mem_singleton]

theorem firstNames_concat (entries : List α) (name : α) :
    firstNames (entries ++ [name]) = appendNew (firstNames entries) name := by
  rw [firstNames, List.foldl_append]
  rfl

@[simp] theorem mem_firstNames {entries : List α} {a : α} :
    a ∈ firstNames entries ↔ a ∈ entries := by
  induction entries using List.reverseRecOn with
  | nil => rfl
  | append_singleton entries name ih =>
    rw [firstNames_concat, mem_appendNew, ih, List.mem_append, List.mem_singleton]

/-- Distinct entries are their own names. -/
theorem firstNames_of_nodup {entries : List α} (h : entries.Nodup) :
    firstNames entries = entries := by
  induction entries using List.reverseRecOn with
  | nil => rfl
  | append_singleton entries name ih =>
    have hparts := List.nodup_append.mp h
    rw [firstNames_concat, ih hparts.1, appendNew, if_neg]
    exact fun hmem => hparts.2.2 name hmem name (List.mem_singleton_self name) rfl

theorem firstNames_appendNew (entries : List α) (name : α) :
    firstNames (appendNew entries name) = appendNew (firstNames entries) name := by
  by_cases h : name ∈ entries
  · rw [appendNew, if_pos h, appendNew, if_pos (mem_firstNames.mpr h)]
  · rw [appendNew, if_neg h, firstNames_concat]

end

/-! ## Two ways to weigh a name -/

section

variable {α K : Type*} [DecidableEq α]

/-- The weight of the first entry of a name; `missing` stands for weights that are not
given. -/
def firstWeight (entries : List α) (weights : List K) (missing : K) (name : α) : K :=
  weights.getD (entries.idxOf name) missing

theorem firstWeight_append {entries : List α} {name : α} (h : name ∈ entries) (more : List α)
    (weights : List K) (missing : K) :
    firstWeight (entries ++ more) weights missing name =
      firstWeight entries weights missing name := by
  rw [firstWeight, firstWeight, List.idxOf_append_of_mem h]

theorem firstWeight_concat {entries : List α} {name : α} (h : name ∉ entries) (weights : List K)
    (missing : K) :
    firstWeight (entries ++ [name]) weights missing name = weights.getD entries.length missing := by
  rw [firstWeight, List.idxOf_append_of_notMem h, List.idxOf_cons_self, add_zero]

theorem firstWeight_mem {entries : List α} {name : α} (h : name ∈ entries) {weights : List K}
    (hlen : entries.length ≤ weights.length) (missing : K) :
    firstWeight entries weights missing name ∈ weights := by
  have hlt := (List.idxOf_lt_length_of_mem h).trans_le hlen
  rw [firstWeight, List.getD_eq_getElem _ _ hlt]
  exact List.getElem_mem hlt

theorem firstWeight_map {entries : List α} {name : α} (h : name ∈ entries) {weights : List K}
    (hlen : entries.length ≤ weights.length) (f : K → K) (missing missing' : K) :
    firstWeight entries (weights.map f) missing name =
      f (firstWeight entries weights missing' name) := by
  have hlt := (List.idxOf_lt_length_of_mem h).trans_le hlen
  rw [firstWeight, firstWeight, List.getD_eq_getElem _ _ hlt,
    List.getD_eq_getElem _ _ (by rwa [List.length_map]), List.getElem_map]

/-- The weights of all entries of a name. -/
def totalWeight [AddMonoid K] (entries : List α) (weights : List K) (missing : K) (name : α) : K :=
  (entries.zipIdx.map fun entry => if entry.1 = name then weights.getD entry.2 missing else 0).sum

/-- Entries of other names count nothing. -/
theorem sum_zipIdx_of_notMem [AddMonoid K] {entries : List α} {name : α} (h : name ∉ entries)
    (f : ℕ → K) (start : ℕ) :
    ((entries.zipIdx start).map fun entry => if entry.1 = name then f entry.2 else 0).sum = 0 := by
  apply List.sum_eq_zero
  intro x hx
  obtain ⟨entry, hentry, rfl⟩ := List.mem_map.mp hx
  refine if_neg ?_
  rintro rfl
  exact h (List.fst_mem_of_mem_zipIdx hentry)

theorem sum_zipIdx_of_nodup [AddMonoid K] {entries : List α} {name : α} (hnodup : entries.Nodup)
    (hmem : name ∈ entries) (f : ℕ → K) (start : ℕ) :
    ((entries.zipIdx start).map fun entry => if entry.1 = name then f entry.2 else 0).sum =
      f (start + entries.idxOf name) := by
  induction entries generalizing start with
  | nil => cases hmem
  | cons entry entries ih =>
    have hparts := List.nodup_cons.mp hnodup
    rw [List.zipIdx_cons, List.map_cons, List.sum_cons]
    by_cases heq : entry = name
    · subst heq
      rw [sum_zipIdx_of_notMem hparts.1, List.idxOf_cons_self]
      simp
    · have hmem' := (List.mem_cons.mp hmem).resolve_left (Ne.symm heq)
      rw [ih hparts.2 hmem', List.idxOf_cons_ne _ heq]
      simp only [if_neg heq, zero_add]
      congr 1
      omega

/-- A name that is listed once has the weight of its one entry. -/
theorem totalWeight_eq_firstWeight [AddMonoid K] {entries : List α} {name : α}
    (hnodup : entries.Nodup) (hmem : name ∈ entries) (weights : List K) (missing : K) :
    totalWeight entries weights missing name = firstWeight entries weights missing name := by
  rw [totalWeight, sum_zipIdx_of_nodup hnodup hmem (weights.getD · missing), zero_add, firstWeight]

end

/-! ## Shares -/

section

variable {α K : Type*} [Field K]

/-- Two weights of each name are in the same proportion for all names. -/
def SameProportions (names : List α) (u v : α → K) : Prop :=
  ∀ a ∈ names, ∀ b ∈ names, u a * v b = u b * v a

/-- Shares of the sum are the same exactly where the weights are in proportion. -/
theorem shares_eq_iff {names : List α} {u v : α → K} (hu : (names.map u).sum ≠ 0)
    (hv : (names.map v).sum ≠ 0) :
    (∀ a ∈ names, u a / (names.map u).sum = v a / (names.map v).sum) ↔
      SameProportions names u v := by
  constructor
  · intro h a ha b hb
    have hcross : ∀ c ∈ names, u c * (names.map v).sum = v c * (names.map u).sum :=
      fun c hc => (div_eq_div_iff hu hv).mp (h c hc)
    apply mul_right_cancel₀ (mul_ne_zero hu hv)
    calc u a * v b * ((names.map u).sum * (names.map v).sum)
        = (u a * (names.map v).sum) * (v b * (names.map u).sum) := by ring
      _ = (v a * (names.map u).sum) * (u b * (names.map v).sum) := by
          rw [hcross a ha, hcross b hb]
      _ = u b * v a * ((names.map u).sum * (names.map v).sum) := by ring
  · intro h a ha
    rw [div_eq_div_iff hu hv, ← List.sum_map_mul_left, ← List.sum_map_mul_left]
    exact congrArg List.sum (List.map_congr_left fun b hb => by rw [h a ha b hb, mul_comm])

end

end BlockEmulator
