import Mathlib.Data.Nat.Notation
import Mathlib.Logic.Basic

/-!
# Passes over a list that may fail

A pass over a list calls a function that may fail at every element. Where no call fails,
the pass is the one of lists.

* `mapM_some`, `exists_mapM_eq_some`, `anyM_some` — the mapping and the search.
* `mapM_length`, `getElem_mapM`, `mem_mapM`, `map_mapM` — the mapping where it does not fail.
* `mapM_eq_some_iff` — the mapping, element by element.
* `keepM_eq_some_iff` — the filter, which fails exactly where a call does.
* `foldlM_nested`, `foldlM_bind_eq_some` — a loop within a loop, a loop after a mapping.
* `foldlM_keeps` — what every call keeps, the loop keeps.
-/

namespace Fallible

variable {α β : Type*}

theorem mapM_some {f : α → Option β} {g : α → β} {l : List α} (h : ∀ x ∈ l, f x = some (g x)) :
    l.mapM f = some (l.map g) := by
  induction l with
  | nil => rfl
  | cons x l ih =>
    rw [List.mapM_cons, h x List.mem_cons_self, ih fun y hy => h y (List.mem_cons_of_mem _ hy)]
    rfl

theorem exists_mapM_eq_some {f : α → Option β} {l : List α} (h : ∀ x ∈ l, (f x).isSome) :
    ∃ l', l.mapM f = some l' := by
  induction l with
  | nil => exact ⟨[], rfl⟩
  | cons x l ih =>
    obtain ⟨b, hb⟩ := Option.isSome_iff_exists.mp (h x List.mem_cons_self)
    obtain ⟨bs, hbs⟩ := ih fun y hy => h y (List.mem_cons_of_mem _ hy)
    refine ⟨b :: bs, ?_⟩
    rw [List.mapM_cons, hb, hbs]
    rfl

/-- A pass that does not fail keeps the length. -/
theorem mapM_length {f : α → Option β} {l : List α} {l' : List β} (h : l.mapM f = some l') :
    l'.length = l.length := by
  induction l generalizing l' with
  | nil =>
    obtain rfl := Option.some.inj h
    rfl
  | cons a l ih =>
    rw [List.mapM_cons] at h
    obtain ⟨b, -, h⟩ := Option.bind_eq_some_iff.mp h
    obtain ⟨bs, hbs, h⟩ := Option.bind_eq_some_iff.mp h
    obtain rfl := Option.some.inj h
    rw [List.length_cons, List.length_cons, ih hbs]

/-- What it returns, a call returned. -/
theorem getElem_mapM {f : α → Option β} {l : List α} {l' : List β} (h : l.mapM f = some l')
    {i : ℕ} (hi : i < l.length) : f l[i] = l'[i]? := by
  induction l generalizing l' i with
  | nil => simp at hi
  | cons a l ih =>
    rw [List.mapM_cons] at h
    obtain ⟨b, hb, h⟩ := Option.bind_eq_some_iff.mp h
    obtain ⟨bs, hbs, h⟩ := Option.bind_eq_some_iff.mp h
    obtain rfl := Option.some.inj h
    cases i with
    | zero => exact hb
    | succ i => exact ih hbs (Nat.lt_of_succ_lt_succ hi)

theorem mem_mapM {f : α → Option β} {l : List α} {l' : List β} (h : l.mapM f = some l') {b : β}
    (hb : b ∈ l') : ∃ a ∈ l, f a = some b := by
  obtain ⟨i, hi, rfl⟩ := List.mem_iff_getElem.mp hb
  have hi' : i < l.length := mapM_length h ▸ hi
  refine ⟨l[i], List.getElem_mem hi', ?_⟩
  rw [getElem_mapM h hi', List.getElem?_eq_getElem hi]

/-- The mapping, element by element. -/
theorem mapM_eq_some_iff {f : α → Option β} {l : List α} {l' : List β} :
    l.mapM f = some l' ↔ l'.length = l.length ∧ ∀ (i : ℕ) (a : α), l[i]? = some a → f a = l'[i]? := by
  constructor
  · refine fun h => ⟨mapM_length h, fun i a ha => ?_⟩
    obtain ⟨hi, rfl⟩ := List.getElem?_eq_some_iff.mp ha
    exact getElem_mapM h hi
  · rintro ⟨hlen, hat⟩
    obtain ⟨out, hout⟩ := exists_mapM_eq_some (f := f) (l := l) fun x hx => by
      obtain ⟨i, hi, rfl⟩ := List.mem_iff_getElem.mp hx
      rw [hat i _ (List.getElem?_eq_getElem hi), List.getElem?_eq_getElem (hlen ▸ hi)]
      rfl
    refine hout.trans (congrArg some (List.ext_getElem? fun i => ?_))
    by_cases hi : i < l.length
    · rw [← getElem_mapM hout hi, hat i _ (List.getElem?_eq_getElem hi)]
    · rw [List.getElem?_eq_none (by rw [mapM_length hout]; exact Nat.not_lt.mp hi),
        List.getElem?_eq_none (by rw [hlen]; exact Nat.not_lt.mp hi)]

/-- What the mapping gives, where what is read of a result is read of the element. -/
theorem map_mapM {γ : Type*} {f : α → Option β} {g : β → γ} {g' : α → γ} {l : List α}
    {l' : List β} (hf : ∀ a b, f a = some b → g b = g' a) (h : l.mapM f = some l') :
    l'.map g = l.map g' := by
  induction l generalizing l' with
  | nil =>
    obtain rfl := Option.some.inj h
    rfl
  | cons a l ih =>
    rw [List.mapM_cons] at h
    obtain ⟨b, hb, h⟩ := Option.bind_eq_some_iff.mp h
    obtain ⟨bs, hbs, h⟩ := Option.bind_eq_some_iff.mp h
    obtain rfl := Option.some.inj h
    rw [List.map_cons, List.map_cons, hf a b hb, ih hbs]

/-- The search stops at the first hit. -/
theorem anyM_some {α : Type} {f : α → Option Bool} {g : α → Bool} {l : List α}
    (h : ∀ x ∈ l, f x = some (g x)) : l.anyM f = some (l.any g) := by
  induction l with
  | nil => rfl
  | cons x l ih =>
    rw [List.anyM, h x List.mem_cons_self, List.any_cons]
    cases g x with
    | true => rfl
    | false => exact ih fun y hy => h y (List.mem_cons_of_mem _ hy)

/-- The elements that pass a test. -/
def keepM (p : α → Option Bool) : List α → Option (List α)
  | [] => some []
  | x :: l => (p x).bind fun keep => (keepM p l).map fun kept => if keep then x :: kept else kept

theorem keepM_eq_some_iff {p : α → Option Bool} {l kept : List α} :
    keepM p l = some kept ↔ (∀ x ∈ l, p x ≠ none) ∧ kept = l.filter fun x => p x = some true := by
  induction l generalizing kept with
  | nil => simp [keepM, eq_comm]
  | cons x l ih =>
    rw [keepM, List.forall_mem_cons]
    cases hx : p x with
    | none => simp
    | some b =>
      have hfilter : (x :: l).filter (fun x => p x = some true) =
          if b then x :: l.filter (fun x => p x = some true)
          else l.filter fun x => p x = some true := by
        rw [List.filter_cons, hx]
        cases b <;> rfl
      rw [Option.bind_some, Option.map_eq_some_iff, hfilter]
      constructor
      · rintro ⟨kept', hrun, rfl⟩
        obtain ⟨hall, rfl⟩ := ih.mp hrun
        exact ⟨⟨Option.some_ne_none b, hall⟩, rfl⟩
      · rintro ⟨⟨-, hall⟩, rfl⟩
        exact ⟨_, ih.mpr ⟨hall, rfl⟩, rfl⟩

/-- A loop over the items of each element is one over all of them. -/
theorem foldlM_nested {γ σ : Type*} (f : σ → β → Option σ) (g : γ → List β) (l : List γ) (s : σ) :
    (l.foldlM (fun s a => (g a).foldlM f s) s) = (l.flatMap g).foldlM f s := by
  induction l generalizing s with
  | nil => rfl
  | cons a l ih =>
    rw [List.foldlM_cons, List.flatMap_cons, List.foldlM_append]
    exact congrArg _ (funext ih)

/-- What every call keeps, the loop keeps. -/
theorem foldlM_keeps {σ : Type*} {f : σ → α → Option σ} {P : σ → Prop}
    (hf : ∀ s a s', P s → f s a = some s' → P s') {l : List α} {s s' : σ}
    (h : l.foldlM f s = some s') (hs : P s) : P s' := by
  induction l generalizing s with
  | nil =>
    obtain rfl : s = s' := by simpa using h
    exact hs
  | cons a l ih =>
    rw [List.foldlM_cons] at h
    obtain ⟨t, ht, hl⟩ := Option.bind_eq_some_iff.mp h
    exact ih hl (hf s a t hs ht)

/-- A loop whose calls begin with a call of their own is the mapping and the loop over what it
gives. -/
theorem foldlM_bind_eq_some {σ : Type*} {f : α → Option β} {g : σ → β → Option σ} {l : List α}
    {s s' : σ} (h : (l.foldlM (fun s a => (f a).bind (g s)) s) = some s') :
    ∃ l', l.mapM f = some l' ∧ l'.foldlM g s = some s' := by
  induction l generalizing s with
  | nil => exact ⟨[], rfl, h⟩
  | cons a l ih =>
    rw [List.foldlM_cons] at h
    obtain ⟨t, ht, hl⟩ := Option.bind_eq_some_iff.mp h
    obtain ⟨b, hb, hg⟩ := Option.bind_eq_some_iff.mp ht
    obtain ⟨l', hmap, hrun⟩ := ih hl
    refine ⟨b :: l', ?_, ?_⟩
    · rw [List.mapM_cons, hb, hmap]
      rfl
    · rw [List.foldlM_cons, hg]
      exact hrun

end Fallible
