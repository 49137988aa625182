import Mathlib.Data.List.Basic

/-!
# The minimum of a list by keys that need not be comparable

A scan keeps the first element that none of the later ones is below. Keys are tuples,
compared at their first difference; an entry that is not a number is neither below nor
above another one, so that the order is a partial one.

* `KeyOrder.lex` — the comparison of tuples is an order when that of entries is.
* `minBy_spec` — nothing is below the minimum.
* `Least.choice` — a least element is chosen in every order of the list.
* `exists_other_minimum` — without one the choice depends on the order.
-/

namespace KeyedMinimum

variable {α ε : Type*}

/-- Two comparisons that go together: `same` for keys that count as equal, `lt` for keys
that are below one another. A key need not be the same as itself. -/
structure KeyOrder (same lt : α → α → Bool) : Prop where
  /-- `same` is symmetric -/
  symm : ∀ a b, same a b = true → same b a = true
  /-- `same` is transitive -/
  same_trans : ∀ a b c, same a b = true → same b c = true → same a c = true
  /-- `lt` is irreflexive -/
  irrefl : ∀ a, lt a a = false
  /-- `lt` is transitive -/
  lt_trans : ∀ a b c, lt a b = true → lt b c = true → lt a c = true
  /-- what is the same is below the same -/
  same_lt : ∀ a b c, same a b = true → lt b c = true → lt a c = true
  /-- what is the same is above the same -/
  lt_same : ∀ a b c, lt a b = true → same b c = true → lt a c = true

/-! ## Tuples -/

/-- The comparison of tuples: at the first place where they are not the same. -/
def lexLt (same lt : ε → ε → Bool) : List ε → List ε → Bool
  | a :: as, b :: bs => if same a b then lexLt same lt as bs else lt a b
  | [], _ :: _ => true
  | _, [] => false

/-- Two tuples that are the same at every place. -/
def lexSame (same : ε → ε → Bool) : List ε → List ε → Bool
  | a :: as, b :: bs => same a b && lexSame same as bs
  | [], [] => true
  | _, _ => false

variable {same lt : ε → ε → Bool}

/-- Tuples can be compared where their entries can. -/
theorem lex_total {as bs : List ε} (h : List.Forall₂
      (fun a b => lt a b = true ∨ same a b = true ∨ lt b a = true) as bs)
    (hsymm : ∀ a b, same a b = true → same b a = true) :
    lexLt same lt as bs = true ∨ lexSame same as bs = true ∨ lexLt same lt bs as = true := by
  induction h with
  | nil => exact .inr (.inl rfl)
  | @cons a b as bs hab _ ih =>
    rw [lexLt, lexLt, lexSame]
    by_cases hsame : same a b = true
    · rw [if_pos hsame, if_pos (hsymm a b hsame), hsame, Bool.true_and]
      exact ih
    · rw [if_neg hsame, if_neg fun hba => hsame (hsymm b a hba)]
      rcases hab with hlt | heq | hgt
      · exact .inl hlt
      · exact absurd heq hsame
      · exact .inr (.inr hgt)

section Tuples

variable (h : KeyOrder same lt)
include h

theorem lexSame_symm : ∀ as bs, lexSame same as bs = true → lexSame same bs as = true
  | [], [], _ => rfl
  | a :: as, b :: bs, hab => by
    obtain ⟨hhead, htail⟩ := Bool.and_eq_true_iff.mp hab
    exact Bool.and_eq_true_iff.mpr ⟨h.symm a b hhead, lexSame_symm as bs htail⟩

theorem lexSame_trans : ∀ as bs cs, lexSame same as bs = true → lexSame same bs cs = true →
    lexSame same as cs = true
  | [], [], [], _, _ => rfl
  | a :: as, b :: bs, c :: cs, hab, hbc => by
    obtain ⟨hab, hab'⟩ := Bool.and_eq_true_iff.mp hab
    obtain ⟨hbc, hbc'⟩ := Bool.and_eq_true_iff.mp hbc
    exact Bool.and_eq_true_iff.mpr
      ⟨h.same_trans a b c hab hbc, lexSame_trans as bs cs hab' hbc'⟩

theorem lexLt_irrefl : ∀ as, lexLt same lt as as = false
  | [] => rfl
  | a :: as => by
    rw [lexLt]
    split
    · exact lexLt_irrefl as
    · exact h.irrefl a

theorem lexLt_trans : ∀ as bs cs, lexLt same lt as bs = true → lexLt same lt bs cs = true →
    lexLt same lt as cs = true
  | [], _ :: _, _ :: _, _, _ => rfl
  | a :: as, b :: bs, c :: cs, hab, hbc => by
    rw [lexLt] at hab hbc ⊢
    split at hab
    · rename_i sab
      split at hbc
      · rename_i sbc
        rw [if_pos (h.same_trans a b c sab sbc)]
        exact lexLt_trans as bs cs hab hbc
      · rename_i sbc
        have sac : ¬ same a c = true := fun sac =>
          sbc (h.same_trans b a c (h.symm a b sab) sac)
        rw [if_neg sac]
        exact h.same_lt a b c sab hbc
    · rename_i sab
      split at hbc
      · rename_i sbc
        have sac : ¬ same a c = true := fun sac =>
          sab (h.same_trans a c b sac (h.symm b c sbc))
        rw [if_neg sac]
        exact h.lt_same a b c hab sbc
      · have sac : ¬ same a c = true := by
          intro sac
          have hcc := h.lt_trans c b c (h.same_lt c a b (h.symm a c sac) hab) hbc
          rw [h.irrefl c] at hcc
          cases hcc
        rw [if_neg sac]
        exact h.lt_trans a b c hab hbc

theorem lexSame_lexLt : ∀ as bs cs, lexSame same as bs = true → lexLt same lt bs cs = true →
    lexLt same lt as cs = true
  | [], [], _ :: _, _, _ => rfl
  | a :: as, b :: bs, c :: cs, hab, hbc => by
    obtain ⟨hab, hab'⟩ := Bool.and_eq_true_iff.mp hab
    rw [lexLt] at hbc ⊢
    split at hbc
    · rename_i sbc
      rw [if_pos (h.same_trans a b c hab sbc)]
      exact lexSame_lexLt as bs cs hab' hbc
    · rename_i sbc
      have sac : ¬ same a c = true := fun sac => sbc (h.same_trans b a c (h.symm a b hab) sac)
      rw [if_neg sac]
      exact h.same_lt a b c hab hbc

theorem lexLt_lexSame : ∀ as bs cs, lexLt same lt as bs = true → lexSame same bs cs = true →
    lexLt same lt as cs = true
  | [], _ :: _, _ :: _, _, _ => rfl
  | a :: as, b :: bs, c :: cs, hab, hbc => by
    obtain ⟨hbc, hbc'⟩ := Bool.and_eq_true_iff.mp hbc
    rw [lexLt] at hab ⊢
    split at hab
    · rename_i sab
      rw [if_pos (h.same_trans a b c sab hbc)]
      exact lexLt_lexSame as bs cs hab hbc'
    · rename_i sab
      have sac : ¬ same a c = true := fun sac => sab (h.same_trans a c b sac (h.symm b c hbc))
      rw [if_neg sac]
      exact h.lt_same a b c hab hbc

/-- **Tuples** are compared like their entries. -/
theorem KeyOrder.lex : KeyOrder (lexSame same) (lexLt same lt) where
  symm := lexSame_symm h
  same_trans := lexSame_trans h
  irrefl := lexLt_irrefl h
  lt_trans := lexLt_trans h
  same_lt := lexSame_lexLt h
  lt_same := lexLt_lexSame h

end Tuples

/-- Elements are compared by their keys. -/
theorem KeyOrder.comap {same lt : ε → ε → Bool} (h : KeyOrder same lt) (key : α → ε) :
    KeyOrder (fun a b => same (key a) (key b)) fun a b => lt (key a) (key b) where
  symm := fun a b => h.symm (key a) (key b)
  same_trans := fun a b c => h.same_trans (key a) (key b) (key c)
  irrefl := fun a => h.irrefl (key a)
  lt_trans := fun a b c => h.lt_trans (key a) (key b) (key c)
  same_lt := fun a b c => h.same_lt (key a) (key b) (key c)
  lt_same := fun a b c => h.lt_same (key a) (key b) (key c)

/-! ## The minimum -/

/-- The scan: a later element replaces the best one so far only if it is below it. -/
def scan (lt : α → α → Bool) (best : α) (l : List α) : α :=
  l.foldl (fun best y => if lt y best then y else best) best

/-- `min`. -/
def minBy (lt : α → α → Bool) : List α → Option α
  | [] => none
  | x :: l => some (scan lt x l)

theorem scan_cons (lt : α → α → Bool) (best x : α) (l : List α) :
    scan lt best (x :: l) = scan lt (if lt x best then x else best) l := rfl

theorem scan_map {β : Type*} (f : α → β) (lt : β → β → Bool) (x : α) (l : List α) :
    scan lt (f x) (l.map f) = f (scan (fun a b => lt (f a) (f b)) x l) := by
  induction l generalizing x with
  | nil => rfl
  | cons y l ih =>
    rw [List.map_cons, scan_cons, scan_cons, ← ih]
    split
    · rfl
    · rfl

/-- The minimum of images is the image of the minimum. -/
theorem minBy_map {β : Type*} (f : α → β) (lt : β → β → Bool) (l : List α) :
    minBy lt (l.map f) = (minBy (fun a b => lt (f a) (f b)) l).map f := by
  cases l with
  | nil => rfl
  | cons x l => exact congrArg some (scan_map f lt x l)

section Minimum

variable {same lt : α → α → Bool} (h : KeyOrder same lt)
include h

theorem scan_le (best : α) (l : List α) :
    scan lt best l = best ∨ lt (scan lt best l) best = true := by
  induction l generalizing best with
  | nil => exact .inl rfl
  | cons x l ih =>
    rw [scan_cons]
    split
    · rename_i hlt
      rcases ih x with heq | hbelow
      · exact .inr (heq.symm ▸ hlt)
      · exact .inr (h.lt_trans _ _ _ hbelow hlt)
    · exact ih best

omit h in
theorem scan_mem (best : α) (l : List α) : scan lt best l ∈ best :: l := by
  induction l generalizing best with
  | nil => exact List.mem_cons_self
  | cons x l ih =>
    rw [scan_cons]
    split
    · exact List.mem_cons_of_mem _ (ih x)
    · rcases List.mem_cons.mp (ih best) with heq | hmem
      · exact List.mem_cons.mpr (.inl heq)
      · exact List.mem_cons_of_mem _ (List.mem_cons_of_mem _ hmem)

theorem not_lt_scan (best : α) (l : List α) : ∀ y ∈ best :: l, ¬ lt y (scan lt best l) = true := by
  induction l generalizing best with
  | nil =>
    intro y hy
    obtain rfl := List.mem_singleton.mp hy
    exact Bool.eq_false_iff.mp (h.irrefl y)
  | cons x l ih =>
    intro y hy
    rw [scan_cons]
    split
    · rename_i hlt
      rcases List.mem_cons.mp hy with rfl | hy
      · -- the old best is above the new one
        exact fun hbelow => ih x x List.mem_cons_self (h.lt_trans _ _ _ hlt hbelow)
      · exact ih x y hy
    · rename_i hnot
      rcases List.mem_cons.mp hy with rfl | hy
      · exact ih y y List.mem_cons_self
      · rcases List.mem_cons.mp hy with rfl | hy
        · -- what is below the result is below the old best
          intro hbelow
          rcases scan_le h best l with heq | hlt
          · exact hnot (heq ▸ hbelow)
          · exact hnot (h.lt_trans _ _ _ hbelow hlt)
        · exact ih best y (List.mem_cons_of_mem _ hy)

/-- **Nothing is below the minimum.** -/
theorem minBy_spec {l : List α} {m : α} (hm : minBy lt l = some m) :
    m ∈ l ∧ ∀ y ∈ l, ¬ lt y m = true := by
  cases l with
  | nil => cases hm
  | cons x l =>
    obtain rfl := Option.some.inj hm
    exact ⟨scan_mem x l, not_lt_scan h x l⟩

/-- An element that is below all others, or the same. -/
def Least (same lt : α → α → Bool) (l : List α) (m : α) : Prop :=
  m ∈ l ∧ ∀ y ∈ l, y = m ∨ lt m y = true ∨ same m y = true

/-- **A least element is chosen**, or one with the same key. -/
theorem Least.choice {l : List α} {m m' : α} (hm : Least same lt l m)
    (hm' : minBy lt l = some m') : m' = m ∨ same m m' = true := by
  obtain ⟨hmem, hmin⟩ := minBy_spec h hm'
  rcases hm.2 m' hmem with heq | hlt | hsame
  · exact .inl heq
  · exact absurd hlt (hmin m hm.1)
  · exact .inr hsame

omit h in
theorem Least.perm {l l' : List α} {m : α} (hm : Least same lt l m) (hperm : l.Perm l') :
    Least same lt l' m :=
  ⟨hperm.mem_iff.mp hm.1, fun y hy => hm.2 y (hperm.mem_iff.mpr hy)⟩

/-- **With a least element the order does not matter**, up to the key. -/
theorem Least.choice_perm {l l' : List α} {m a b : α} (hm : Least same lt l m)
    (hperm : l.Perm l') (ha : minBy lt l = some a) (hb : minBy lt l' = some b) :
    b = a ∨ same a b = true := by
  rcases hm.choice h ha with heq | hsame
  · rcases (hm.perm hperm).choice h hb with heq' | hsame'
    · exact .inl (heq'.trans heq.symm)
    · exact .inr (heq ▸ hsame')
  · rcases (hm.perm hperm).choice h hb with heq' | hsame'
    · exact .inr (heq' ▸ h.symm _ _ hsame)
    · exact .inr (h.same_trans _ _ _ (h.symm _ _ hsame) hsame')

/-- Where any two elements can be compared, the minimum is least. -/
theorem least_of_total {l : List α} (hl : l ≠ [])
    (htotal : ∀ a ∈ l, ∀ b ∈ l, lt a b = true ∨ same a b = true ∨ lt b a = true) :
    ∃ m, Least same lt l m := by
  obtain ⟨m, hm⟩ : ∃ m, minBy lt l = some m := by
    cases l with
    | nil => exact absurd rfl hl
    | cons x l => exact ⟨_, rfl⟩
  obtain ⟨hmem, hmin⟩ := minBy_spec h hm
  refine ⟨m, hmem, fun y hy => .inr ?_⟩
  rcases htotal m hmem y hy with hlt | hsame | hgt
  · exact .inl hlt
  · exact .inr hsame
  · exact absurd hgt (hmin y hy)

/-- Below every element lies one that nothing is below. -/
theorem exists_minimal_le (l : List α) {y : α} (hy : y ∈ l) :
    ∃ z ∈ l, (z = y ∨ lt z y = true) ∧ ∀ x ∈ l, ¬ lt x z = true := by
  -- the scan that starts at the element
  refine ⟨scan lt y l, ?_, scan_le h y l, fun x hx => not_lt_scan h y l x (.tail _ hx)⟩
  rcases List.mem_cons.mp (scan_mem y l) with heq | hmem
  · exact heq.symm ▸ hy
  · exact hmem

/-- **Without a least element the choice depends on the order**: another element that
nothing is below would be chosen if it came first. -/
theorem exists_other_minimum {l : List α} {m : α} (hm : minBy lt l = some m)
    (hnot : ∀ m, ¬ Least same lt l m) :
    ∃ z ∈ l, (∀ x ∈ l, ¬ lt x z = true) ∧ ¬ (z = m ∨ same z m = true) := by
  obtain ⟨hmem, -⟩ := minBy_spec h hm
  obtain ⟨y, hy⟩ := not_forall.mp fun hall => hnot m ⟨hmem, hall⟩
  obtain ⟨hyl, hy⟩ := Classical.not_imp.mp hy
  obtain ⟨hne, hincomparable⟩ := not_or.mp hy
  obtain ⟨hlt, hsame⟩ := not_or.mp hincomparable
  obtain ⟨z, hz, hzy, hmin⟩ := exists_minimal_le h l hyl
  refine ⟨z, hz, hmin, ?_⟩
  rintro (rfl | hzm)
  · rcases hzy with rfl | hzy
    · exact hne rfl
    · exact hlt hzy
  · have hmz := h.symm z m hzm
    rcases hzy with rfl | hzy
    · exact hsame hmz
    · exact hlt (h.same_lt _ _ _ hmz hzy)

omit h in
theorem minBy_of_head {x : α} {l : List α} (hx : ∀ y ∈ l, ¬ lt y x = true) :
    minBy lt (x :: l) = some x := by
  refine congrArg some ?_
  induction l with
  | nil => rfl
  | cons y l ih =>
    rw [scan_cons, if_neg (hx y List.mem_cons_self)]
    exact ih fun z hz => hx z (List.mem_cons_of_mem _ hz)

end Minimum

end KeyedMinimum
