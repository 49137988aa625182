import Mathlib.Data.List.Basic
import Mathlib.Data.Nat.Basic
import Mathlib.Order.Lattice

/-!
# Binary heaps in a list

The operations of `heapq`: a list in which no item is before its parent. Sifting moves a hole;
the item that goes into it in the end is at hand. Items are compared by a key.

* `heappush_perm`, `heappush_isHeap`, `heapreplace_perm`, `heapreplace_isHeap`,
  `heappop_perm`, `heappop_isHeap` — **the operations keep the heap, and lose nothing**.
* `IsHeap.root_le` — the first item is a least one.
-/

namespace Heapq

variable {α κ : Type*} [LinearOrder κ] (key : α → κ)

/-- The parent of a position. -/
def parent (i : ℕ) : ℕ := (i - 1) / 2

/-- `_siftdown` from position 0: the hole moves up as long as the item is before the parent.
The number bounds the moves. -/
def siftdown (newitem : α) : ℕ → List α → ℕ → List α
  | 0, heap, pos => heap.set pos newitem
  | n + 1, heap, pos =>
    match if 0 < pos then heap[parent pos]? else none with
    | none => heap.set pos newitem
    | some p =>
      if key newitem < key p then siftdown newitem n (heap.set pos p) (parent pos)
      else heap.set pos newitem

/-- The child that the hole goes to: the right one, unless the left one is before it. -/
def smallerChild (heap : List α) (pos : ℕ) : Option (ℕ × α) :=
  match heap[2 * pos + 1]? with
  | none => none
  | some left =>
    match heap[2 * pos + 2]? with
    | none => some (2 * pos + 1, left)
    | some right => if key left < key right then some (2 * pos + 1, left)
      else some (2 * pos + 2, right)

/-- `_siftup` from position 0: the hole moves down to a leaf, then the item is sifted down
from there. -/
def siftup (newitem : α) : ℕ → List α → ℕ → List α
  | 0, heap, pos => siftdown key newitem pos heap pos
  | n + 1, heap, pos =>
    match smallerChild key heap pos with
    | none => siftdown key newitem pos heap pos
    | some c => siftup newitem n (heap.set pos c.2) c.1

/-- `heappush`. -/
def heappush (heap : List α) (item : α) : List α :=
  siftdown key item heap.length (heap ++ [item]) heap.length

/-- `heapreplace`: what was the first item, and the heap; `none` is an `IndexError`. -/
def heapreplace (heap : List α) (item : α) : Option (α × List α) :=
  match heap with
  | [] => none
  | root :: rest => some (root, siftup key item heap.length (item :: rest) 0)

/-- `heappop`; `none` is an `IndexError`. -/
def heappop (heap : List α) : Option (α × List α) :=
  match heap.getLast? with
  | none => none
  | some last =>
    match heap.dropLast with
    | [] => some (last, [])
    | root :: rest => some (root, siftup key last heap.length (last :: rest) 0)

/-- The order of parents and children. -/
def InOrder (heap : List α) (i : ℕ) : Prop :=
  ∀ p c, heap[parent i]? = some p → heap[i]? = some c → key p ≤ key c

/-- No item is before its parent. -/
def IsHeap (heap : List α) : Prop := ∀ i, 0 < i → InOrder key heap i

/-- What moving the hole up keeps: the pairs off the hole are in order, and so are its parent
and its children, and the item and its children. -/
structure UpOrder (heap : List α) (hole : ℕ) (newitem : α) : Prop where
  off : ∀ i, 0 < i → i ≠ hole → parent i ≠ hole → InOrder key heap i
  grand : 0 < hole → ∀ i, 0 < i → parent i = hole →
    ∀ p c, heap[parent hole]? = some p → heap[i]? = some c → key p ≤ key c
  below : ∀ i, 0 < i → parent i = hole → ∀ c, heap[i]? = some c → key newitem ≤ key c

/-- What moving the hole down keeps. -/
structure DownOrder (heap : List α) (hole : ℕ) : Prop where
  off : ∀ i, 0 < i → i ≠ hole → parent i ≠ hole → InOrder key heap i
  grand : 0 < hole → ∀ i, 0 < i → parent i = hole →
    ∀ p c, heap[parent hole]? = some p → heap[i]? = some c → key p ≤ key c

variable {key} {heap : List α} {hole i : ℕ} {newitem : α}

theorem parent_lt (h : 0 < i) : parent i < i := by
  unfold parent
  omega

theorem getElem?_set_other (heap : List α) (x : α) (h : i ≠ hole) :
    (heap.set hole x)[i]? = heap[i]? :=
  List.getElem?_set_ne (Ne.symm h)

theorem getElem?_set_hole {x y : α} (h : (heap.set hole x)[hole]? = some y) : y = x := by
  obtain ⟨hlt, hget⟩ := List.getElem?_eq_some_iff.mp h
  rw [List.getElem_set_self] at hget
  exact hget.symm

/-! ## Sifting keeps the order -/

/-- The parent moves into the hole. -/
theorem UpOrder.move (h : UpOrder key heap hole newitem) (hpos : 0 < hole) {p : α}
    (hp : heap[parent hole]? = some p) (hlt : key newitem < key p) :
    UpOrder key (heap.set hole p) (parent hole) newitem := by
  have hne : parent hole ≠ hole := (parent_lt hpos).ne
  have habove : 0 < parent hole → ∀ g, heap[parent (parent hole)]? = some g → key g ≤ key p :=
    fun h0 g hg => h.off _ h0 hne ((parent_lt h0).trans (parent_lt hpos)).ne g p hg hp
  -- a sibling is not before the parent
  have hsibling : ∀ i, 0 < i → parent i = parent hole → i ≠ hole → ∀ c, heap[i]? = some c →
      key p ≤ key c := fun i hi hpi hih c hc =>
    h.off i hi hih (by rw [hpi]; exact hne) p c (by rw [hpi]; exact hp) hc
  refine ⟨fun i hi hih hpi x y hx hy => ?_, fun h0 i hi hpi x y hx hy => ?_,
    fun i hi hpi y hy => ?_⟩
  · by_cases hhole : i = hole
    · exact absurd (congrArg parent hhole) hpi
    · rw [getElem?_set_other _ _ hhole] at hy
      by_cases hparent : parent i = hole
      · rw [hparent] at hx
        obtain rfl := getElem?_set_hole hx
        exact h.grand hpos i hi hparent x y hp hy
      · rw [getElem?_set_other _ _ hparent] at hx
        exact h.off i hi hhole hparent x y hx hy
  · have hgrand : parent (parent hole) ≠ hole := ((parent_lt h0).trans (parent_lt hpos)).ne
    rw [getElem?_set_other _ _ hgrand] at hx
    by_cases hhole : i = hole
    · subst hhole
      obtain rfl := getElem?_set_hole hy
      exact habove h0 x hx
    · rw [getElem?_set_other _ _ hhole] at hy
      exact (habove h0 x hx).trans (hsibling i hi hpi hhole y hy)
  · by_cases hhole : i = hole
    · subst hhole
      obtain rfl := getElem?_set_hole hy
      exact hlt.le
    · rw [getElem?_set_other _ _ hhole] at hy
      exact hlt.le.trans (hsibling i hi hpi hhole y hy)

/-- The item goes into the hole. -/
theorem UpOrder.finish (h : UpOrder key heap hole newitem)
    (hstop : 0 < hole → ∀ p, heap[parent hole]? = some p → key p ≤ key newitem) :
    IsHeap key (heap.set hole newitem) := by
  intro i hi x y hx hy
  by_cases hhole : i = hole
  · subst hhole
    obtain rfl := getElem?_set_hole hy
    rw [getElem?_set_other _ _ (parent_lt hi).ne] at hx
    exact hstop hi x hx
  · rw [getElem?_set_other _ _ hhole] at hy
    by_cases hparent : parent i = hole
    · rw [hparent] at hx
      obtain rfl := getElem?_set_hole hx
      exact h.below i hi hparent y hy
    · rw [getElem?_set_other _ _ hparent] at hx
      exact h.off i hi hhole hparent x y hx hy

theorem siftdown_isHeap (newitem : α) {n : ℕ} {heap : List α} {pos : ℕ}
    (h : UpOrder key heap pos newitem) (hn : pos ≤ n) :
    IsHeap key (siftdown key newitem n heap pos) := by
  induction n generalizing heap pos with
  | zero =>
    rw [siftdown]
    exact h.finish fun hpos => absurd hpos (by omega)
  | succ n ih =>
    rw [siftdown]
    split
    · rename_i hnone
      refine h.finish fun hpos p hp => ?_
      rw [if_pos hpos, hp] at hnone
      cases hnone
    · rename_i p hp
      obtain ⟨hpos, hp⟩ := Option.ite_none_right_eq_some.mp hp
      split
      · rename_i hlt
        have := parent_lt hpos
        exact ih (h.move hpos hp hlt) (by omega)
      · rename_i hle
        refine h.finish fun _ q hq => ?_
        rw [hp] at hq
        obtain rfl := Option.some.inj hq
        exact not_lt.mp hle

theorem parent_left (hole : ℕ) : parent (2 * hole + 1) = hole := by
  unfold parent
  omega

theorem parent_right (hole : ℕ) : parent (2 * hole + 2) = hole := by
  unfold parent
  omega

theorem eq_left_or_right (hi : 0 < i) (hpi : parent i = hole) :
    i = 2 * hole + 1 ∨ i = 2 * hole + 2 := by
  unfold parent at hpi
  omega

theorem smallerChild_leaf (hl : heap[2 * hole + 1]? = none) :
    smallerChild key heap hole = none := by
  rw [smallerChild, hl]

theorem smallerChild_left {left : α} (hl : heap[2 * hole + 1]? = some left)
    (hr : ∀ right, heap[2 * hole + 2]? = some right → key left < key right) :
    smallerChild key heap hole = some (2 * hole + 1, left) := by
  rw [smallerChild, hl]
  cases hright : heap[2 * hole + 2]? with
  | none => rfl
  | some right => exact if_pos (hr right hright)

theorem smallerChild_right {left right : α} (hl : heap[2 * hole + 1]? = some left)
    (hr : heap[2 * hole + 2]? = some right) (hle : key right ≤ key left) :
    smallerChild key heap hole = some (2 * hole + 2, right) := by
  rw [smallerChild, hl, hr]
  exact if_neg (not_lt.mpr hle)

/-- The hole goes to a child that is not behind the other one. -/
theorem smallerChild_eq_some {c : ℕ × α} (h : smallerChild key heap hole = some c) :
    parent c.1 = hole ∧ 0 < c.1 ∧ heap[c.1]? = some c.2 ∧
      ∀ i, 0 < i → parent i = hole → ∀ y, heap[i]? = some y → key c.2 ≤ key y := by
  cases hl : heap[2 * hole + 1]? with
  | none =>
    rw [smallerChild_leaf hl] at h
    cases h
  | some left =>
    by_cases hleft : ∀ right, heap[2 * hole + 2]? = some right → key left < key right
    · rw [smallerChild_left hl hleft] at h
      obtain rfl := Option.some.inj h
      refine ⟨parent_left hole, Nat.succ_pos _, hl, fun i hi hpi y hy => ?_⟩
      rcases eq_left_or_right hi hpi with rfl | rfl
      · rw [Option.some.inj (hl.symm.trans hy)]
      · exact (hleft y hy).le
    · push Not at hleft
      obtain ⟨right, hr, hle⟩ := hleft
      rw [smallerChild_right hl hr hle] at h
      obtain rfl := Option.some.inj h
      refine ⟨parent_right hole, Nat.succ_pos _, hr, fun i hi hpi y hy => ?_⟩
      rcases eq_left_or_right hi hpi with rfl | rfl
      · rwa [← Option.some.inj (hl.symm.trans hy)]
      · rw [Option.some.inj (hr.symm.trans hy)]

theorem smallerChild_eq_none (h : smallerChild key heap hole = none) (hi : 0 < i)
    (hpi : parent i = hole) : heap[i]? = none := by
  have hl : heap[2 * hole + 1]? = none := by
    rw [smallerChild] at h
    grind
  rw [List.getElem?_eq_none_iff] at hl ⊢
  unfold parent at hpi
  omega

/-- A child moves into the hole. -/
theorem DownOrder.move (h : DownOrder key heap hole) {c : ℕ × α}
    (hc : smallerChild key heap hole = some c) : DownOrder key (heap.set hole c.2) c.1 := by
  obtain ⟨hpc, hpos, hget, hleast⟩ := smallerChild_eq_some hc
  have hne : c.1 ≠ hole := by
    have := parent_lt hpos
    omega
  refine ⟨fun i hi hic hpi x y hx hy => ?_, fun _ i hi hpi x y hx hy => ?_⟩
  · by_cases hhole : i = hole
    · subst hhole
      obtain rfl := getElem?_set_hole hy
      rw [getElem?_set_other _ _ (parent_lt hi).ne] at hx
      exact h.grand hi c.1 hpos hpc x c.2 hx hget
    · rw [getElem?_set_other _ _ hhole] at hy
      by_cases hparent : parent i = hole
      · rw [hparent] at hx
        obtain rfl := getElem?_set_hole hx
        exact hleast i hi hparent y hy
      · rw [getElem?_set_other _ _ hparent] at hx
        exact h.off i hi hhole hparent x y hx hy
  · rw [hpc] at hx
    obtain rfl := getElem?_set_hole hx
    have hih : i ≠ hole := by
      have := parent_lt hi
      have := parent_lt hpos
      omega
    rw [getElem?_set_other _ _ hih] at hy
    exact h.off i hi hih (by rw [hpi]; exact hne) c.2 y (by rw [hpi]; exact hget) hy

/-- At a leaf the hole may go up again, with any item. -/
theorem DownOrder.turn (h : DownOrder key heap hole) (hleaf : smallerChild key heap hole = none)
    (newitem : α) : UpOrder key heap hole newitem where
  off := h.off
  grand := h.grand
  below i hi hpi c hc := by
    rw [smallerChild_eq_none hleaf hi hpi] at hc
    cases hc

theorem siftup_isHeap (newitem : α) {n : ℕ} {heap : List α} {pos : ℕ} (h : DownOrder key heap pos)
    (hn : heap.length ≤ pos + n) : IsHeap key (siftup key newitem n heap pos) := by
  induction n generalizing heap pos with
  | zero =>
    have hleaf : smallerChild key heap pos = none :=
      smallerChild_leaf (List.getElem?_eq_none_iff.mpr (by omega))
    rw [siftup]
    exact siftdown_isHeap newitem (h.turn hleaf newitem) le_rfl
  | succ n ih =>
    rw [siftup]
    split
    · rename_i hleaf
      exact siftdown_isHeap newitem (h.turn hleaf newitem) le_rfl
    · rename_i c hc
      have hpos := (smallerChild_eq_some hc).1
      have hlt := parent_lt (smallerChild_eq_some hc).2.1
      exact ih (h.move hc) (by rw [List.length_set]; omega)

/-! ## Sifting loses nothing -/

/-- A move of the hole. -/
theorem set_move_perm {i j : ℕ} {x : α} (hij : i ≠ j) (hi : i < heap.length)
    (hj : heap[j]? = some x) (y : α) : ((heap.set i x).set j y).Perm (heap.set i y) := by
  obtain ⟨hlt, hget⟩ := List.getElem?_eq_some_iff.mp hj
  have hi' : i < (heap.set i y).length := by rwa [List.length_set]
  have hj' : j < (heap.set i y).length := by rwa [List.length_set]
  have hswap := List.set_set_perm hi' hj'
  rwa [List.getElem_set_self, List.getElem_set_ne hij, hget, List.set_set] at hswap

theorem siftdown_perm (newitem : α) {n : ℕ} {heap : List α} {pos : ℕ} (hpos : pos < heap.length) :
    (siftdown key newitem n heap pos).Perm (heap.set pos newitem) := by
  induction n generalizing heap pos with
  | zero => exact .refl _
  | succ n ih =>
    rw [siftdown]
    split
    · exact .refl _
    · rename_i p hp
      obtain ⟨h0, hp⟩ := Option.ite_none_right_eq_some.mp hp
      have hlt := parent_lt h0
      split
      · exact (ih (by rw [List.length_set]; omega)).trans
          (set_move_perm hlt.ne' hpos hp newitem)
      · exact .refl _

theorem siftup_perm (newitem : α) {n : ℕ} {heap : List α} {pos : ℕ} (hpos : pos < heap.length) :
    (siftup key newitem n heap pos).Perm (heap.set pos newitem) := by
  induction n generalizing heap pos with
  | zero => exact siftdown_perm newitem hpos
  | succ n ih =>
    rw [siftup]
    split
    · exact siftdown_perm newitem hpos
    · rename_i c hc
      obtain ⟨hpc, h0, hget, -⟩ := smallerChild_eq_some hc
      have hlt := parent_lt h0
      have hin := (List.getElem?_eq_some_iff.mp hget).1
      exact (ih (by rw [List.length_set]; exact hin)).trans
        (set_move_perm (by omega) hpos hget newitem)

/-! ## The operations -/

/-- A heap with its first item taken out of order. -/
theorem IsHeap.downOrder {root newroot : α} {rest : List α} (h : IsHeap key (root :: rest)) :
    DownOrder key (newroot :: rest) 0 := by
  refine ⟨fun i hi _ hpi x y hx hy => ?_, fun h0 => absurd h0 (Nat.lt_irrefl 0)⟩
  obtain ⟨j, rfl⟩ := Nat.exists_eq_succ_of_ne_zero hi.ne'
  obtain ⟨k, hk⟩ := Nat.exists_eq_succ_of_ne_zero hpi
  rw [hk, List.getElem?_cons_succ] at hx
  rw [List.getElem?_cons_succ] at hy
  refine h (j + 1) hi x y ?_ hy
  rw [hk, List.getElem?_cons_succ]
  exact hx

/-- A heap with an item behind it, on the way up. -/
theorem IsHeap.upOrder (h : IsHeap key heap) (item : α) :
    UpOrder key (heap ++ [item]) heap.length item := by
  have hout : ∀ i, 0 < i → parent i = heap.length → (heap ++ [item])[i]? = none := by
    intro i hi hpi
    have := parent_lt hi
    rw [List.getElem?_eq_none_iff, List.length_append, List.length_singleton]
    omega
  refine ⟨fun i hi hih hpi x y hx hy => ?_, fun _ i hi hpi x y _ hy => ?_,
    fun i hi hpi y hy => ?_⟩
  · have hlt := (List.getElem?_eq_some_iff.mp hy).1
    rw [List.length_append, List.length_singleton] at hlt
    have hlt' := parent_lt hi
    rw [List.getElem?_append_left (by omega)] at hx hy
    exact h i hi x y hx hy
  · rw [hout i hi hpi] at hy
    cases hy
  · rw [hout i hi hpi] at hy
    cases hy

theorem isHeap_nil : IsHeap key ([] : List α) := fun _ _ _ _ _ h => nomatch h

theorem heappush_isHeap (h : IsHeap key heap) (item : α) : IsHeap key (heappush key heap item) :=
  siftdown_isHeap item (h.upOrder item) le_rfl

theorem heappush_perm (heap : List α) (item : α) :
    (heappush key heap item).Perm (item :: heap) := by
  refine (siftdown_perm item (by simp)).trans ?_
  rw [List.set_append_right _ _ le_rfl, Nat.sub_self, List.set_cons_zero]
  exact List.perm_append_comm

/-- **The first item is a least one.** It is by induction on the position, from parent to
child. -/
theorem IsHeap.root_le {root : α} {rest : List α} (h : IsHeap key (root :: rest)) {x : α}
    (hx : x ∈ root :: rest) : key root ≤ key x := by
  obtain ⟨i, hi, rfl⟩ := List.mem_iff_getElem.mp hx
  induction i using Nat.strong_induction_on with
  | _ i ih =>
    rcases Nat.eq_zero_or_pos i with rfl | hpos
    · exact le_rfl
    · have hlt := parent_lt hpos
      have hpin : parent i < (root :: rest).length := hlt.trans hi
      exact (ih _ hlt hpin (List.getElem_mem hpin)).trans
        (h i hpos _ _ (List.getElem?_eq_getElem hpin) (List.getElem?_eq_getElem hi))

theorem heapreplace_isHeap (h : IsHeap key heap) {item r : α} {heap' : List α}
    (hr : heapreplace key heap item = some (r, heap')) : IsHeap key heap' := by
  cases heap with
  | nil => cases hr
  | cons root rest =>
    obtain ⟨-, rfl⟩ := Prod.mk.inj (Option.some.inj hr)
    exact siftup_isHeap item h.downOrder (by simp)

theorem heapreplace_perm {item r : α} {heap' : List α}
    (hr : heapreplace key heap item = some (r, heap')) : (r :: heap').Perm (item :: heap) := by
  cases heap with
  | nil => cases hr
  | cons root rest =>
    obtain ⟨rfl, rfl⟩ := Prod.mk.inj (Option.some.inj hr)
    have hperm : (siftup key item (root :: rest).length (item :: rest) 0).Perm (item :: rest) :=
      siftup_perm item (by simp)
    exact (hperm.cons root).trans (.swap _ _ _)

/-- A list without its last item, and the item. -/
theorem dropLast_perm {last : α} (h : heap.getLast? = some last) :
    (last :: heap.dropLast).Perm heap := by
  obtain ⟨init, rfl⟩ := List.getLast?_eq_some_iff.mp h
  rw [List.dropLast_concat]
  exact (List.perm_append_singleton last init).symm

theorem IsHeap.dropLast (h : IsHeap key heap) : IsHeap key heap.dropLast := by
  intro i hi x y hx hy
  rw [List.getElem?_dropLast] at hx hy
  obtain ⟨-, hx⟩ := Option.ite_none_right_eq_some.mp hx
  obtain ⟨-, hy⟩ := Option.ite_none_right_eq_some.mp hy
  exact h i hi x y hx hy

theorem heappop_isHeap (h : IsHeap key heap) {r : α} {heap' : List α}
    (hr : heappop key heap = some (r, heap')) : IsHeap key heap' := by
  rw [heappop] at hr
  split at hr
  · cases hr
  · rename_i last _
    have hinit := h.dropLast
    split at hr
    · obtain ⟨-, rfl⟩ := Prod.mk.inj (Option.some.inj hr)
      exact isHeap_nil
    · rename_i root rest hcons
      rw [hcons] at hinit
      have hlen : heap.dropLast.length = rest.length + 1 := by rw [hcons]; rfl
      rw [List.length_dropLast] at hlen
      obtain ⟨-, rfl⟩ := Prod.mk.inj (Option.some.inj hr)
      exact siftup_isHeap last hinit.downOrder (by rw [List.length_cons]; omega)

theorem heappop_perm {r : α} {heap' : List α} (hr : heappop key heap = some (r, heap')) :
    (r :: heap').Perm heap := by
  rw [heappop] at hr
  split at hr
  · cases hr
  · rename_i last hlast
    have hperm := dropLast_perm hlast
    split at hr
    · rename_i hnil
      rw [hnil] at hperm
      obtain ⟨rfl, rfl⟩ := Prod.mk.inj (Option.some.inj hr)
      exact hperm
    · rename_i root rest hcons
      rw [hcons] at hperm
      obtain ⟨rfl, rfl⟩ := Prod.mk.inj (Option.some.inj hr)
      have hsift : (siftup key last heap.length (last :: rest) 0).Perm (last :: rest) :=
        siftup_perm last (by simp)
      exact ((hsift.cons root).trans (.swap _ _ _)).trans hperm

/-- What is popped was first. -/
theorem heappop_root {r : α} {heap' : List α} (hr : heappop key heap = some (r, heap')) :
    heap.head? = some r := by
  rw [heappop] at hr
  split at hr
  · cases hr
  · rename_i last hlast
    obtain ⟨init, rfl⟩ := List.getLast?_eq_some_iff.mp hlast
    rw [List.dropLast_concat] at hr
    cases init with
    | nil =>
      obtain ⟨rfl, -⟩ := Prod.mk.inj (Option.some.inj hr)
      rfl
    | cons root rest =>
      obtain ⟨rfl, -⟩ := Prod.mk.inj (Option.some.inj hr)
      rfl

/-- **What is popped is a least item.** -/
theorem heappop_le (h : IsHeap key heap) {r : α} {heap' : List α}
    (hr : heappop key heap = some (r, heap')) {x : α} (hx : x ∈ heap) : key r ≤ key x := by
  obtain ⟨rest, rfl⟩ := List.head?_eq_some_iff.mp (heappop_root hr)
  exact h.root_le hx

/-- Only the empty heap has nothing to pop. -/
theorem heappop_eq_none_iff : heappop key heap = none ↔ heap = [] := by
  rw [heappop]
  cases hlast : heap.getLast? with
  | none => exact iff_of_true rfl (List.getLast?_eq_none_iff.mp hlast)
  | some last =>
    have hne : heap ≠ [] := fun hnil => by simp [hnil] at hlast
    refine iff_of_false ?_ hne
    dsimp only
    split <;> exact Option.some_ne_none _

end Heapq
