import Mathlib.Algebra.BigOperators.Group.List.Basic
import Mathlib.Algebra.Group.Pi.Basic
import Mathlib.Data.List.Induction
import Mathlib.Data.List.Nodup
import Mathlib.Data.List.Perm.Basic
import Mathlib.Logic.Function.Basic
import Mathlib.Tactic.Abel

/-!
# Two phases paired by a key, in the order of arrival

Items bring first phases, each a value under a key, and second phases, each with a gain that
depends on the value of its key. A second phase gains only when the first phase of its key has
come.

* `ordered` — a sum over the pairs of a list in order; `ordered_perm_iff`: **it is the same in
  every order just when all pairs are the same both ways**.
* `total_eq` — **the gains of a run are such a sum**, when no key has two first phases.
* `total_perm_iff`, `total_eq_of_forward` — the gains in other orders.
-/

namespace PairedPhases

variable {β η ν M : Type*}

/-! ## Sums over ordered pairs -/

section Ordered

variable [AddCommMonoid M] (g : β → β → M)

/-- The sum over the pairs of a list, each in the order of the list. -/
def ordered : List β → M
  | [] => 0
  | a :: l => (l.map (g a)).sum + ordered l

variable {g} {l l' : List β}

theorem ordered_concat (l : List β) (b : β) :
    ordered g (l ++ [b]) = ordered g l + (l.map (g · b)).sum := by
  induction l with
  | nil => simp [ordered]
  | cons a l ih =>
    rw [List.cons_append, ordered, ih, ordered, List.map_append, List.sum_append, List.map_cons,
      List.map_nil, List.sum_singleton, List.map_cons, List.sum_cons, add_assoc, add_assoc]
    congr 1
    rw [← add_assoc, add_comm (g a b), add_assoc]

/-- A sum over pairs that are the same both ways. -/
theorem ordered_perm (h : l.Perm l') (hsame : l.Pairwise fun a b => g a b = g b a) :
    ordered g l = ordered g l' := by
  induction h with
  | nil => rfl
  | cons a h ih =>
    rw [ordered, ordered, ih (List.pairwise_cons.mp hsame).2, (h.map (g a)).sum_eq]
  | swap a b l =>
    have hba := (List.pairwise_cons.mp hsame).1 a List.mem_cons_self
    simp only [ordered, List.map_cons, List.sum_cons, hba]
    rw [add_assoc, add_assoc, add_left_comm (l.map (g b)).sum]
  | trans h _ ih ih' =>
    have hsymm : ∀ {a b : β}, g a b = g b a → g b a = g a b := Eq.symm
    rw [ih hsame, ih' ((h.pairwise_iff hsymm).mp hsame)]

/-- A sum over pairs that are nothing the other way. -/
theorem ordered_of_forward (h : l.Pairwise fun a b => g b a = 0) :
    ordered g l = ordered (fun a b => g a b + g b a) l := by
  induction l with
  | nil => rfl
  | cons a l ih =>
    obtain ⟨ha, hl⟩ := List.pairwise_cons.mp h
    rw [ordered, ordered, ih hl]
    congr 2
    refine List.map_congr_left fun b hb => ?_
    rw [ha b hb, add_zero]

/-- **Two orders in which no pair is the wrong way round.** -/
theorem ordered_eq_of_forward (hperm : l.Perm l') (h : l.Pairwise fun a b => g b a = 0)
    (h' : l'.Pairwise fun a b => g b a = 0) : ordered g l = ordered g l' := by
  rw [ordered_of_forward h, ordered_of_forward h']
  exact ordered_perm hperm (List.pairwise_of_forall fun a b => add_comm _ _)

end Ordered

/-- **A sum over ordered pairs is the same in every order just when all pairs are the same both
ways.** Two elements that are not show in the orders that begin with them. -/
theorem ordered_perm_iff [AddCancelCommMonoid M] {g : β → β → M} {l : List β} :
    (∀ l', l'.Perm l → ordered g l' = ordered g l) ↔ l.Pairwise fun a b => g a b = g b a := by
  refine ⟨fun h => ?_, fun h l' hl => (ordered_perm hl.symm h).symm⟩
  refine List.pairwise_iff_forall_sublist.mpr fun {a b} hsub => ?_
  obtain ⟨rest, hrest⟩ := hsub.exists_perm_append
  have hswap := (h _ hrest.symm).trans (h _ ((List.Perm.swap a b rest).trans hrest.symm)).symm
  refine add_right_cancel (b := (rest.map (g a)).sum + (rest.map (g b)).sum + ordered g rest) ?_
  simp only [List.cons_append, List.nil_append, ordered, List.map_cons, List.sum_cons] at hswap
  have hswap' : ∀ x y z w : M, x + (y + z + w) = x + y + (z + w) := fun x y z w => by
    rw [add_assoc, add_assoc]
  rw [hswap', hswap, add_comm (rest.map (g a)).sum (rest.map (g b)).sum, hswap']

/-! ## Runs -/

section Run

variable [DecidableEq η] [AddCommMonoid M] (firsts : β → List (η × ν)) (own : β → M)
  (seconds : β → List (η × (ν → M)))

/-- What is known by key when an item has come. -/
def learn (known : η → Option ν) (b : β) : η → Option ν :=
  (firsts b).foldl (fun (known : η → Option ν) first =>
    Function.update known first.1 (some first.2)) known

/-- What an item gains, by what is known. -/
def gain (known : η → Option ν) (b : β) : M :=
  own b + ((seconds b).map fun second => (known second.1).elim 0 second.2).sum

/-- What is known, and what is gained, when some items have come. -/
def total (l : List β) : (η → Option ν) × M :=
  l.foldl (fun s b => (learn firsts s.1 b, s.2 + gain own seconds (learn firsts s.1 b) b))
    (fun _ => none, 0)

/-- What the second phases of one item gain by the first phases of another. -/
def link (a b : β) : M :=
  ((seconds b).map fun second => ((firsts a).lookup second.1).elim 0 second.2).sum

variable {firsts own seconds} {l : List β}

theorem total_concat (l : List β) (b : β) :
    total firsts own seconds (l ++ [b]) =
      (learn firsts (total firsts own seconds l).1 b, (total firsts own seconds l).2 +
        gain own seconds (learn firsts (total firsts own seconds l).1 b) b) := by
  rw [total, List.foldl_append]
  rfl

omit [AddCommMonoid M] in
theorem lookup_eq_none {entries : List (η × ν)} {h : η} (hout : h ∉ entries.map (·.1)) :
    entries.lookup h = none := by
  refine List.lookup_eq_none_iff.mpr fun p hp => bne_iff_ne.mpr ?_
  rintro rfl
  exact hout (List.mem_map_of_mem hp)

omit [AddCommMonoid M] in
theorem mem_of_lookup {entries : List (η × ν)} {h : η} {v : ν} (hv : entries.lookup h = some v) :
    h ∈ entries.map (·.1) := by
  by_contra hout
  rw [lookup_eq_none hout] at hv
  cases hv

/-- What an item brings is known from then on. -/
theorem learn_eq {b : β} (hkeys : ((firsts b).map (·.1)).Nodup) (known : η → Option ν) (h : η) :
    learn firsts known b h = ((firsts b).lookup h).or (known h) := by
  have hentries : ∀ (entries : List (η × ν)) (known : η → Option ν),
      (entries.map (·.1)).Nodup →
      entries.foldl (fun (known : η → Option ν) first =>
          Function.update known first.1 (some first.2)) known h =
        (entries.lookup h).or (known h) := by
    intro entries
    induction entries with
    | nil => exact fun known _ => rfl
    | cons e entries ih =>
      intro known hkeys
      obtain ⟨hout, hkeys⟩ := List.nodup_cons.mp hkeys
      rw [List.foldl_cons, ih _ hkeys, List.lookup_cons]
      by_cases he : h = e.1
      · subst he
        rw [lookup_eq_none hout, beq_self_eq_true, Function.update_self]
        rfl
      · rw [Function.update_of_ne he, beq_eq_false_iff_ne.mpr he]
  exact hentries _ known hkeys

/-- What is known by a key, by the items that have come: at most one of them has it. -/
theorem elim_known (hkeys : ((l.flatMap firsts).map (·.1)).Nodup) (h : η) (f : ν → M) :
    ((total firsts own seconds l).1 h).elim 0 f =
      (l.map fun a => ((firsts a).lookup h).elim 0 f).sum := by
  induction l using List.reverseRecOn with
  | nil => rfl
  | append_singleton l b ih =>
    rw [List.flatMap_append, List.flatMap_singleton, List.map_append] at hkeys
    obtain ⟨hl, hb, hdisj⟩ := List.nodup_append.mp hkeys
    have hlast : (total firsts own seconds (l ++ [b])).1 h =
        ((firsts b).lookup h).or ((total firsts own seconds l).1 h) := by
      rw [total_concat]
      exact learn_eq hb _ h
    rw [hlast, List.map_append, List.sum_append, List.map_singleton, List.sum_singleton]
    cases hlook : (firsts b).lookup h with
    | none => rw [Option.none_or, ih hl, Option.elim_none, add_zero]
    | some v =>
      have hzero : ∀ a ∈ l, (firsts a).lookup h = none := by
        refine fun a ha => lookup_eq_none fun hmem => ?_
        refine hdisj h ?_ h (mem_of_lookup hlook) rfl
        obtain ⟨e, he, rfl⟩ := List.mem_map.mp hmem
        exact List.mem_map_of_mem (List.mem_flatMap_of_mem ha he)
      have hsum : (l.map fun a => ((firsts a).lookup h).elim 0 f).sum = 0 := by
        refine List.sum_eq_zero fun x hx => ?_
        obtain ⟨a, ha, rfl⟩ := List.mem_map.mp hx
        rw [hzero a ha, Option.elim_none]
      rw [hsum, zero_add, Option.some_or]

omit [DecidableEq η] in
theorem sum_map_comm {α γ : Type*} (l : List α) (m : List γ) (f : α → γ → M) :
    (l.map fun a => (m.map (f a)).sum).sum = (m.map fun c => (l.map (f · c)).sum).sum := by
  induction l with
  | nil => simp
  | cons a l ih =>
    simp only [List.map_cons, List.sum_cons, ih, List.sum_map_add]

/-- What an item gains in a run. -/
theorem gain_eq {b : β} (hkeys : (((l ++ [b]).flatMap firsts).map (·.1)).Nodup) :
    gain own seconds (learn firsts (total firsts own seconds l).1 b) b =
      own b + ((l ++ [b]).map (link firsts seconds · b)).sum := by
  have hknown : learn firsts (total firsts own seconds l).1 b =
      (total firsts own seconds (l ++ [b])).1 := by
    rw [total_concat]
  simp only [gain, hknown, elim_known hkeys, link]
  rw [sum_map_comm]

/-- **The gains of a run**: those of each item by itself, and those of each by the items that
have come before it. -/
theorem total_eq (hkeys : ((l.flatMap firsts).map (·.1)).Nodup) :
    (total firsts own seconds l).2 =
      (l.map fun b => own b + link firsts seconds b b).sum + ordered (link firsts seconds) l := by
  induction l using List.reverseRecOn with
  | nil => simp [total, ordered]
  | append_singleton l b ih =>
    have hl : ((l.flatMap firsts).map (·.1)).Nodup := by
      rw [List.flatMap_append, List.map_append] at hkeys
      exact (List.nodup_append.mp hkeys).1
    rw [total_concat, gain_eq hkeys, ih hl, ordered_concat]
    simp only [List.map_append, List.sum_append, List.map_singleton, List.sum_singleton]
    abel

/-- **The gains are the same in every order just when no two items gain by each other, or both
the same.** -/
theorem total_perm_iff {M : Type*} [AddCancelCommMonoid M] {own : β → M}
    {seconds : β → List (η × (ν → M))} (hkeys : ((l.flatMap firsts).map (·.1)).Nodup) :
    (∀ l', l'.Perm l →
        (total firsts own seconds l').2 = (total firsts own seconds l).2) ↔
      l.Pairwise fun a b => link firsts seconds a b = link firsts seconds b a := by
  rw [← ordered_perm_iff]
  refine forall_congr' fun l' => imp_congr_right fun hl => ?_
  have hkeys' : ((l'.flatMap firsts).map (·.1)).Nodup :=
    ((hl.flatMap_right firsts).map _).nodup_iff.mpr hkeys
  rw [total_eq hkeys, total_eq hkeys', (hl.map _).sum_eq, add_right_inj]

/-- **Two orders in which no second phase comes before its first one.** -/
theorem total_eq_of_forward {l' : List β} (hkeys : ((l.flatMap firsts).map (·.1)).Nodup)
    (hperm : l.Perm l') (h : l.Pairwise fun a b => link firsts seconds b a = 0)
    (h' : l'.Pairwise fun a b => link firsts seconds b a = 0) :
    (total firsts own seconds l).2 = (total firsts own seconds l').2 := by
  have hkeys' : ((l'.flatMap firsts).map (·.1)).Nodup :=
    ((hperm.flatMap_right firsts).map _).nodup_iff.mp hkeys
  rw [total_eq hkeys, total_eq hkeys', (hperm.map _).sum_eq, ordered_eq_of_forward hperm h h']

end Run

end PairedPhases
