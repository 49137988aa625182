import Mathlib.Data.List.AList

/-!
# Passes that update a map

A pass over a list that updates one entry of a map for each element: the entry under the
key of the element, which may be there or not.

* `lookup_foldl` — an entry is what the elements with its key make of it, in their order;
* `mem_foldl` — an entry is there once there was an element with its key;
* `perm_flatMap_filter` — a list is made of its elements with each key.
-/

namespace KeyedUpdates

variable {α κ β : Type*} [DecidableEq κ] (key : α → κ) (update : Option β → α → β)

/-- The entry of one element is updated. -/
def updateAt (m : AList fun _ : κ => β) (a : α) : AList fun _ : κ => β :=
  m.insert (key a) (update (m.lookup (key a)) a)

variable {key update} {m : AList fun _ : κ => β} {l : List α} {k : κ}

theorem lookup_updateAt (a : α) :
    (updateAt key update m a).lookup k =
      if key a = k then some (update (m.lookup k) a) else m.lookup k := by
  rw [updateAt]
  split
  · rename_i hk
    rw [hk, AList.lookup_insert]
  · rename_i hk
    exact AList.lookup_insert_ne (Ne.symm hk)

/-- **An entry is what the elements with its key make of it.** -/
theorem lookup_foldl :
    (l.foldl (updateAt key update) m).lookup k =
      (l.filter fun a => key a = k).foldl (fun o a => some (update o a)) (m.lookup k) := by
  induction l generalizing m with
  | nil => rfl
  | cons a l ih =>
    rw [List.foldl_cons, ih, lookup_updateAt, List.filter_cons]
    by_cases hk : key a = k
    · rw [if_pos hk, if_pos (decide_eq_true hk), List.foldl_cons]
    · rw [if_neg hk, if_neg (by simpa using hk)]

/-- An entry is there once there was an element with its key. -/
theorem mem_foldl :
    k ∈ l.foldl (updateAt key update) m ↔ k ∈ m ∨ ∃ a ∈ l, key a = k := by
  induction l generalizing m with
  | nil => simp
  | cons a l ih =>
    rw [List.foldl_cons, ih, updateAt, AList.mem_insert, or_assoc, or_left_comm]
    simp [eq_comm]

/-- **A list is made of its elements with each key.** -/
theorem perm_flatMap_filter {keys : List κ} (hnd : keys.Nodup) (hkeys : ∀ a ∈ l, key a ∈ keys) :
    l.Perm (keys.flatMap fun k => l.filter fun a => key a = k) := by
  induction keys generalizing l with
  | nil =>
    rw [List.eq_nil_iff_forall_not_mem.mpr fun a ha => List.not_mem_nil (hkeys a ha)]
    exact List.Perm.refl _
  | cons k keys ih =>
    obtain ⟨hk, hnd'⟩ := List.nodup_cons.mp hnd
    rw [List.flatMap_cons]
    refine (List.filter_append_perm (fun a => key a = k) l).symm.trans (List.Perm.append_left _ ?_)
    refine (ih (l := l.filter fun a => !decide (key a = k)) hnd' fun a ha => ?_).trans ?_
    · obtain ⟨ha, hne⟩ := List.mem_filter.mp ha
      refine (List.mem_cons.mp (hkeys a ha)).resolve_left fun heq => ?_
      simp [heq] at hne
    · refine List.Perm.of_eq (List.flatMap_congr fun k' hk' => ?_)
      rw [List.filter_filter]
      refine List.filter_congr fun a _ => ?_
      by_cases heq : key a = k'
      · have hne : k' ≠ k := ne_of_mem_of_not_mem hk' hk
        simp [heq, hne]
      · simp [heq]

end KeyedUpdates
