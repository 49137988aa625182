import Mathlib.Logic.Basic

/-!
# Entries made once

A loop keeps the entries it has made, by their keys, and makes one only where it has none
yet. An entry may also say when it was made; what a `view` sees of it depends on the key alone.

* `ensure_none_iff`, `Faithful.ensure`, `Faithful.lookup_ensure` — **what is kept is what would
  be made anew**, so that the loop may forget what it keeps.
-/

namespace Memo

variable {κ ε α : Type*} [DecidableEq κ]

/-- The entries, by their keys. -/
abbrev Cache (κ ε : Type*) : Type _ := List (κ × ε)

/-- The cache with an entry for the key; `none` where one has to be made and cannot. -/
def ensure (make : κ → Option ε) (cache : Cache κ ε) (k : κ) : Option (Cache κ ε) :=
  match cache.lookup k with
  | some _ => some cache
  | none => (make k).map fun e => cache ++ [(k, e)]

/-- What is seen of the entries is what `f` says of their keys. -/
def Faithful (view : ε → α) (f : κ → Option α) (cache : Cache κ ε) : Prop :=
  ∀ k e, cache.lookup k = some e → f k = some (view e)

variable {view : ε → α} {f : κ → Option α} {make : κ → Option ε} {cache cache' : Cache κ ε} {k : κ}

theorem faithful_nil : Faithful view f ([] : Cache κ ε) := fun _ _ h => nomatch h

/-- What `ensure` does. -/
theorem ensure_eq_some (h : ensure make cache k = some cache') :
    (∃ e, cache.lookup k = some e) ∧ cache' = cache ∨
      cache.lookup k = none ∧ ∃ e, make k = some e ∧ cache' = cache ++ [(k, e)] := by
  rw [ensure] at h
  cases hk : cache.lookup k with
  | some e =>
    rw [hk] at h
    exact .inl ⟨⟨e, rfl⟩, (Option.some.inj h).symm⟩
  | none =>
    rw [hk] at h
    obtain ⟨e, he, rfl⟩ := Option.map_eq_some_iff.mp h
    exact .inr ⟨rfl, e, he, rfl⟩

theorem lookup_append_singleton (cache : Cache κ ε) (k k' : κ) (e : ε) :
    (cache ++ [(k, e)]).lookup k' =
      (cache.lookup k').or (if k' = k then some e else none) := by
  rw [List.lookup_append]
  congr 1
  by_cases hk : k' = k
  · rw [if_pos hk, List.lookup_cons, beq_iff_eq.mpr hk]
  · rw [if_neg hk, List.lookup_cons, beq_eq_false_iff_ne.mpr hk]
    rfl

/-- A faithful cache stays so. -/
theorem Faithful.ensure (hc : Faithful view f cache) (hmake : (make k).map view = f k)
    (h : ensure make cache k = some cache') : Faithful view f cache' := by
  obtain ⟨-, rfl⟩ | ⟨-, e, he, rfl⟩ := ensure_eq_some h
  · exact hc
  · intro k' e' hk'
    rw [lookup_append_singleton] at hk'
    cases hold : cache.lookup k' with
    | some e₀ =>
      rw [hold, Option.some_or] at hk'
      obtain rfl := Option.some.inj hk'
      exact hc k' e₀ hold
    | none =>
      rw [hold, Option.none_or] at hk'
      split at hk'
      · rename_i heq
        obtain rfl := Option.some.inj hk'
        rw [heq, ← hmake, he, Option.map_some]
      · cases hk'

/-- The key has an entry, and the others have what they had. -/
theorem lookup_ensure (h : Memo.ensure make cache k = some cache') :
    (∃ e, cache'.lookup k = some e) ∧
      ∀ k' e, cache.lookup k' = some e → cache'.lookup k' = some e := by
  obtain ⟨hk, rfl⟩ | ⟨hk, e, -, rfl⟩ := ensure_eq_some h
  · exact ⟨hk, fun _ _ => id⟩
  · refine ⟨⟨e, ?_⟩, fun k' e' hk' => ?_⟩
    · rw [lookup_append_singleton, hk, Option.none_or, if_pos rfl]
    · rw [lookup_append_singleton, hk', Option.some_or]

/-- It fails exactly where `f` does. -/
theorem Faithful.ensure_none_iff (hc : Faithful view f cache) (hmake : (make k).map view = f k) :
    Memo.ensure make cache k = none ↔ f k = none := by
  rw [Memo.ensure]
  cases hk : cache.lookup k with
  | some e => simp [hc k e hk]
  | none => simp [← hmake]

end Memo
