import BlockEmulator.KeyedMinimum
import Mathlib.Algebra.Order.Field.Rat

/-!
# Floats

The `float` of Python: the numbers, two infinities and what is not a number, with the
comparisons and the arithmetic on them.

* `FloatValue.lt_iff`, `FloatValue.le_iff` — the comparisons are those of places in an order.
* `FloatValue.keyOrder` — keys of floats are partially ordered.
-/

namespace BlockEmulator

open KeyedMinimum

/-- A `float`. An object that is not a number is known by its identity; `none` is one that
was just computed, which is no other one. -/
inductive FloatValue where
  /-- a number -/
  | num (q : ℚ)
  /-- `inf` -/
  | posInf
  /-- `-inf` -/
  | negInf
  /-- `nan` -/
  | nan (object : Option ℕ)
  deriving DecidableEq

namespace FloatValue

/-- `a < b`. -/
def lt : FloatValue → FloatValue → Bool
  | num a, num b => a < b
  | num _, posInf => true
  | negInf, num _ => true
  | negInf, posInf => true
  | _, _ => false

/-- `a == b`. -/
def eq : FloatValue → FloatValue → Bool
  | num a, num b => a = b
  | posInf, posInf => true
  | negInf, negInf => true
  | _, _ => false

/-- `a <= b`. -/
def le (a b : FloatValue) : Bool := lt a b || eq a b

/-- `a is b or a == b`: how tuples are searched for a difference. -/
def same : FloatValue → FloatValue → Bool
  | nan (some i), nan (some j) => i = j
  | a, b => eq a b

/-- `-a`. -/
def neg : FloatValue → FloatValue
  | num a => num (-a)
  | posInf => negInf
  | negInf => posInf
  | nan _ => nan none

/-- `a - b`. -/
def sub : FloatValue → FloatValue → FloatValue
  | num a, num b => num (a - b)
  | num _, posInf => negInf
  | num _, negInf => posInf
  | posInf, num _ => posInf
  | posInf, negInf => posInf
  | negInf, num _ => negInf
  | negInf, posInf => negInf
  | _, _ => nan none

/-- `a / b`, for `b` other than zero. -/
def div : FloatValue → FloatValue → FloatValue
  | num a, num b => num (a / b)
  | num _, posInf => num 0
  | num _, negInf => num 0
  | posInf, num b => if 0 < b then posInf else negInf
  | negInf, num b => if 0 < b then negInf else posInf
  | _, _ => nan none

/-- `max(0.0, a)`: what is not a number is not greater. -/
def max0 (a : FloatValue) : FloatValue := if lt (num 0) a then a else num 0

/-- The place among the numbers and infinities. -/
def place : FloatValue → Option (WithBot (WithTop ℚ))
  | num a => some ((a : WithTop ℚ) : WithBot (WithTop ℚ))
  | posInf => some ((⊤ : WithTop ℚ) : WithBot (WithTop ℚ))
  | negInf => some ⊥
  | nan _ => none

variable {a b c : FloatValue}

theorem lt_iff : lt a b = true ↔ ∃ x ∈ a.place, ∃ y ∈ b.place, x < y := by
  have htop : ∀ q : ℚ, ((q : WithTop ℚ) : WithBot (WithTop ℚ)) < ⊤ := fun q =>
    WithBot.coe_lt_coe.mpr (WithTop.coe_lt_top q)
  cases a <;> cases b <;> simp [lt, place, htop]

theorem eq_iff : eq a b = true ↔ ∃ x ∈ a.place, x ∈ b.place := by
  cases a <;> cases b <;> simp [eq, place, eq_comm]

/-- Two floats are the same where they have the same place, or are one object. -/
theorem same_iff :
    same a b = true ↔ (∃ x ∈ a.place, x ∈ b.place) ∨ ∃ i, a = nan (some i) ∧ b = nan (some i) := by
  have hnan : ∀ o : Option ℕ, place (nan o) = none := fun _ => rfl
  rw [← eq_iff]
  cases a with
  | nan i =>
    cases b with
    | nan j => cases i <;> cases j <;> simp [same, eq, eq_comm]
    | _ => simp [same, eq]
  | _ => cases b <;> simp [same, eq]

theorem keyOrder : KeyOrder same lt where
  symm := by
    intro a b h
    rw [same_iff] at h ⊢
    rcases h with ⟨x, ha, hb⟩ | ⟨i, ha, hb⟩
    · exact .inl ⟨x, hb, ha⟩
    · exact .inr ⟨i, hb, ha⟩
  same_trans := by
    intro a b c hab hbc
    rw [same_iff] at hab hbc ⊢
    rcases hab with ⟨x, ha, hb⟩ | ⟨i, rfl, rfl⟩
    · rcases hbc with ⟨y, hb', hc⟩ | ⟨i, rfl, rfl⟩
      · exact .inl ⟨x, ha, Option.mem_unique hb' hb ▸ hc⟩
      · cases hb
    · rcases hbc with ⟨y, hb', hc⟩ | ⟨j, hij, rfl⟩
      · cases hb'
      · exact .inr ⟨j, hij, rfl⟩
  irrefl := by
    intro a
    rw [← Bool.not_eq_true, lt_iff]
    rintro ⟨x, hx, y, hy, hlt⟩
    exact absurd (Option.mem_unique hx hy) hlt.ne
  lt_trans := by
    intro a b c hab hbc
    rw [lt_iff] at hab hbc ⊢
    obtain ⟨x, hx, y, hy, hxy⟩ := hab
    obtain ⟨y', hy', z, hz, hyz⟩ := hbc
    exact ⟨x, hx, z, hz, hxy.trans (Option.mem_unique hy' hy ▸ hyz)⟩
  same_lt := by
    intro a b c hab hbc
    rw [same_iff] at hab
    rw [lt_iff] at hbc ⊢
    obtain ⟨y, hy, z, hz, hyz⟩ := hbc
    rcases hab with ⟨x, ha, hb⟩ | ⟨i, -, rfl⟩
    · exact ⟨x, ha, z, hz, Option.mem_unique hy hb ▸ hyz⟩
    · cases hy
  lt_same := by
    intro a b c hab hbc
    rw [same_iff] at hbc
    rw [lt_iff] at hab ⊢
    obtain ⟨x, hx, y, hy, hxy⟩ := hab
    rcases hbc with ⟨z, hb, hc⟩ | ⟨i, rfl, -⟩
    · exact ⟨x, hx, z, hc, Option.mem_unique hy hb ▸ hxy⟩
    · cases hy

end FloatValue

end BlockEmulator
