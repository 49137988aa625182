import Mathlib.Data.List.Basic
import Mathlib.Data.List.Flatten
import Mathlib.Data.List.Perm.Basic

/-!
# Dispatching in chunks

A list is cut into chunks, and each chunk is sorted into one parcel for every destination.

* `flatten_cuts`, `dispatch_perm` — **nothing is lost**, nor sent twice.
* `dispatch_route` — what is in a parcel is bound for its destination.
* `parcels_in_order` — what one destination gets is in the order of the list.
* `mem_cuts_length`, `length_cuts` — no chunk is empty or too long, and there are as few as
  can be.
-/

namespace Dispatch

variable {α : Type*} (route : α → ℕ) (n speed : ℕ)

/-- The chunks: a cut before every `speed`-th element, and at the end. `idx` elements are
behind, and those since the last cut are held. -/
def cuts : ℕ → List α → List α → List (List α)
  | idx, held, [] => if 0 < idx then [held] else []
  | idx, held, x :: xs =>
    if 0 < idx ∧ idx % speed = 0 then held :: cuts (idx + 1) [x] xs
    else cuts (idx + 1) (held ++ [x]) xs

/-- A parcel for every destination. -/
def parcels (chunk : List α) : List (ℕ × List α) :=
  (List.range n).map fun k => (k, chunk.filter fun x => route x = k)

/-- What is sent: the parcels of each chunk. -/
def dispatch (xs : List α) : List (ℕ × List α) := (cuts speed 0 [] xs).flatMap (parcels route n)

variable {route n speed} {xs : List α}

/-- The chunks make up the list. -/
theorem flatten_cuts {idx : ℕ} {held : List α} (h : idx = 0 → held = []) :
    (cuts speed idx held xs).flatten = held ++ xs := by
  induction xs generalizing idx held with
  | nil =>
    rw [cuts]
    split
    · rw [List.flatten_singleton, List.append_nil]
    · rename_i hidx
      rw [h (by omega)]
      rfl
  | cons x xs ih =>
    have hlater : ∀ l : List α, idx + 1 = 0 → l = [] := fun _ h => absurd h (Nat.succ_ne_zero idx)
    rw [cuts]
    split
    · rw [List.flatten_cons, ih (hlater _)]
      rfl
    · rw [ih (hlater _), List.append_assoc]
      rfl

/-- The destinations below a bound get what is bound for them. -/
theorem flatMap_range_perm (chunk : List α) (n : ℕ) :
    ((List.range n).flatMap fun k => chunk.filter fun x => route x = k).Perm
      (chunk.filter fun x => route x < n) := by
  induction n with
  | zero => simp
  | succ n ih =>
    rw [List.range_succ, List.flatMap_append, List.flatMap_singleton]
    refine (ih.append_right _).trans ?_
    -- the last destination takes what the others leave
    have hsplit := List.filter_append_perm (fun x => decide (route x < n))
      (chunk.filter fun x => decide (route x < n + 1))
    rw [List.filter_filter, List.filter_filter] at hsplit
    convert hsplit using 2
    · refine List.filter_congr fun x _ => ?_
      grind
    · refine List.filter_congr fun x _ => ?_
      grind

theorem parcels_perm {chunk : List α} (h : ∀ x ∈ chunk, route x < n) :
    ((parcels route n chunk).flatMap (·.2)).Perm chunk := by
  rw [parcels, List.flatMap_map]
  refine (flatMap_range_perm chunk n).trans (List.Perm.of_eq ?_)
  rw [List.filter_eq_self]
  exact fun x hx => decide_eq_true (h x hx)

/-- **Nothing is lost**: where all destinations exist, everything is sent once. -/
theorem dispatch_perm (h : ∀ x ∈ xs, route x < n) :
    ((dispatch route n speed xs).flatMap (·.2)).Perm xs := by
  have hflat : (cuts speed 0 [] xs).flatten = xs := flatten_cuts fun _ => rfl
  rw [dispatch, List.flatMap_assoc]
  refine (List.Perm.flatMap_left _ fun chunk hchunk => parcels_perm fun x hx => h x ?_).trans ?_
  · rw [← hflat]
    exact List.mem_flatten_of_mem hchunk hx
  · rw [List.flatMap_id', hflat]

/-- **Everything goes to its destination.** -/
theorem dispatch_route {e : ℕ × List α} (he : e ∈ dispatch route n speed xs) :
    e.1 < n ∧ ∀ x ∈ e.2, route x = e.1 := by
  obtain ⟨chunk, -, he⟩ := List.mem_flatMap.mp he
  obtain ⟨k, hk, rfl⟩ := List.mem_map.mp he
  refine ⟨List.mem_range.mp hk, fun x hx => ?_⟩
  have hx : x ∈ chunk.filter fun x => route x = k := hx
  exact of_decide_eq_true (List.mem_filter.mp hx).2

/-- What one destination gets of a chunk. -/
theorem parcels_filter {chunk : List α} {k : ℕ} (hk : k < n) :
    ((parcels route n chunk).filter (·.1 = k)).flatMap (·.2) =
      chunk.filter fun x => route x = k := by
  have hone : (List.range n).filter (fun j => decide (j = k)) = [k] := by
    rw [List.filter_eq, List.nodup_range.count, if_pos (List.mem_range.mpr hk), List.replicate_one]
  rw [parcels, List.filter_map]
  simp only [Function.comp_def]
  rw [hone]
  simp

/-- **Each destination gets its elements in the order of the list.** -/
theorem parcels_in_order {k : ℕ} (hk : k < n) :
    (cuts speed 0 [] xs).flatMap (fun chunk =>
        ((parcels route n chunk).filter (·.1 = k)).flatMap (·.2)) =
      xs.filter fun x => route x = k := by
  have hflat : (cuts speed 0 [] xs).flatten = xs := flatten_cuts fun _ => rfl
  conv_rhs => rw [← hflat, List.filter_flatten]
  rw [List.flatMap_def]
  exact congrArg List.flatten (List.map_congr_left fun chunk _ => parcels_filter hk)

/-- What is held when the loop has gone over `idx` elements: as many as have come since
the last multiple of the speed before them. -/
def Held (speed idx : ℕ) (held : List α) : Prop :=
  held.length ≤ speed ∧ held.length % speed = idx % speed ∧ (held.length = 0 ↔ idx = 0)

theorem held_start (speed : ℕ) : Held speed 0 ([] : List α) :=
  ⟨Nat.zero_le _, rfl, by simp⟩

/-- A full chunk goes, and the next one begins. -/
theorem Held.full {idx : ℕ} {held : List α} (h : Held speed idx held) (hidx : 0 < idx)
    (hmod : idx % speed = 0) : held.length = speed := by
  obtain ⟨hle, hcong, hzero⟩ := h
  have hdvd : speed ∣ held.length := Nat.dvd_of_mod_eq_zero (hcong.trans hmod)
  exact Nat.le_antisymm hle (Nat.le_of_dvd (by omega) hdvd)

theorem Held.next {idx : ℕ} {held : List α} (h : Held speed idx held) (hspeed : 0 < speed)
    (x : α) :
    if 0 < idx ∧ idx % speed = 0 then Held speed (idx + 1) [x]
    else Held speed (idx + 1) (held ++ [x]) := by
  obtain ⟨hle, hcong, hzero⟩ := h
  split
  · rename_i hcut
    refine ⟨hspeed, ?_, by simp⟩
    rw [List.length_singleton, Nat.add_mod, hcut.2, Nat.zero_add, Nat.mod_mod]
  · rename_i hcut
    have hlt : held.length < speed := by
      rcases Nat.lt_or_ge held.length speed with hlt | hge
      · exact hlt
      · have hfull : held.length = speed := Nat.le_antisymm hle hge
        rw [hfull, Nat.mod_self] at hcong
        exact absurd ⟨by omega, hcong.symm⟩ hcut
    refine ⟨?_, ?_, by simp⟩
    · rw [List.length_append, List.length_singleton]
      exact hlt
    · rw [List.length_append, List.length_singleton, Nat.add_mod, hcong, ← Nat.add_mod]

/-- **No chunk is empty, and none is longer than the speed.** -/
theorem mem_cuts_length (hspeed : 0 < speed) {idx : ℕ} {held chunk : List α}
    (h : Held speed idx held) (hc : chunk ∈ cuts speed idx held xs) :
    0 < chunk.length ∧ chunk.length ≤ speed := by
  induction xs generalizing idx held with
  | nil =>
    rw [cuts] at hc
    split at hc
    · obtain rfl := List.mem_singleton.mp hc
      have := h.2.2
      exact ⟨by omega, h.1⟩
    · cases hc
  | cons x xs ih =>
    have hnext := h.next hspeed x
    rw [cuts] at hc
    split at hc
    · rename_i hcut
      rw [if_pos hcut] at hnext
      rcases List.mem_cons.mp hc with rfl | hc
      · have hfull := h.full hcut.1 hcut.2
        omega
      · exact ih hnext hc
    · rename_i hcut
      rw [if_neg hcut] at hnext
      exact ih hnext hc

/-- **There are as few chunks as the speed allows.** -/
theorem length_cuts (hspeed : 0 < speed) {idx : ℕ} {held : List α} (h : Held speed idx held) :
    (cuts speed idx held xs).length = (held.length + xs.length + (speed - 1)) / speed := by
  induction xs generalizing idx held with
  | nil =>
    have hle := h.1
    have hzero := h.2.2
    rw [cuts]
    split
    · rw [List.length_singleton, List.length_nil]
      exact (Nat.div_eq_of_lt_le (by omega) (by omega)).symm
    · simp only [List.length_nil]
      exact (Nat.div_eq_of_lt (by omega)).symm
  | cons x xs ih =>
    have hnext := h.next hspeed x
    rw [cuts]
    split
    · rename_i hcut
      rw [if_pos hcut] at hnext
      have hfull := h.full hcut.1 hcut.2
      rw [List.length_cons, ih hnext, hfull, List.length_singleton, List.length_cons,
        ← Nat.add_div_right _ hspeed]
      congr 1
      omega
    · rename_i hcut
      rw [if_neg hcut] at hnext
      rw [ih hnext, List.length_append, List.length_singleton, List.length_cons]
      congr 1
      omega

end Dispatch
