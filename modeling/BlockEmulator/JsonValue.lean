import BlockEmulator.Fallible
import BlockEmulator.FloatValue

/-!
# JSON values

What `json.load` returns and `json.dump` writes, and what Python makes of such a value:
`float`, `int`, `bool`, and `list` of integers. How numbers are read from texts, what a
`float` is made of an `int`, and the numbers of `np.float32`, are given.

* `NumberReading.safeFloat`, `NumberReading.safeInt` — the readings that never fail.
* `safeFloat_num`, `safeInt_int`, `intList_ints` — what was written as a number is read as it.
-/

namespace BlockEmulator

/-- A value of a JSON text. -/
inductive JsonValue where
  /-- `null` -/
  | null
  /-- `true` and `false` -/
  | bool (b : Bool)
  /-- a number without a point and an exponent -/
  | int (n : ℤ)
  /-- another number -/
  | float (x : FloatValue)
  /-- a text -/
  | str (text : String)
  /-- a list -/
  | arr (items : List JsonValue)
  /-- a dictionary -/
  | obj (fields : List (String × JsonValue))

/-- `d.get(key, default)`. -/
def dictGet (fields : List (String × JsonValue)) (key : String) (default : JsonValue) : JsonValue :=
  (fields.lookup key).getD default

namespace JsonValue

/-- `bool(x)`. -/
def truthy : JsonValue → Bool
  | null => false
  | bool b => b
  | int n => n ≠ 0
  | float x => x ≠ .num 0
  | str text => text ≠ ""
  | arr items => !items.isEmpty
  | obj fields => !fields.isEmpty

/-- `x == text`. -/
def isStr (text : String) : JsonValue → Bool
  | str t => t = text
  | _ => false

/-- The items of a list, none of another value. -/
def items : JsonValue → List JsonValue
  | arr items => items
  | _ => []

end JsonValue

/-- `int(x)` of a number: the fraction is dropped. -/
def truncate (q : ℚ) : ℤ := q.num.tdiv q.den

/-- The number, if it is one. -/
def FloatValue.finite? : FloatValue → Option ℚ
  | num q => some q
  | _ => none

/-- How numbers are read, and which of them are numbers of `np.float32`. -/
structure NumberReading where
  /-- `float(n)` of an `int`; `none` is an `OverflowError` -/
  floatOfInt : ℤ → Option ℚ
  /-- `float(text)`; `none` is a `ValueError` -/
  floatOfText : String → Option FloatValue
  /-- `int(text)`; `none` is a `ValueError` -/
  intOfText : String → Option ℤ
  /-- `np.float32(x)`; infinite where `x` is out of range -/
  float32 : ℚ → FloatValue
  /-- a number of `np.float32` stays as it is -/
  float32_idem : ∀ {x y : ℚ}, float32 x = .num y → float32 y = .num y

namespace NumberReading

variable (num : NumberReading)

/-- `safe_float(x, None)`. -/
def safeFloat? : JsonValue → Option ℚ
  | .bool b => some (if b then 1 else 0)
  | .int n => num.floatOfInt n
  | .float x => x.finite?
  | .str text => (num.floatOfText text).bind FloatValue.finite?
  | _ => none

/-- `safe_float(x, default)`. -/
def safeFloat (default : ℚ) (x : JsonValue) : ℚ := (num.safeFloat? x).getD default

/-- `int(x)`; `none` is an exception. -/
def int? : JsonValue → Option ℤ
  | .bool b => some (if b then 1 else 0)
  | .int n => some n
  | .float x => x.finite?.map truncate
  | .str text => num.intOfText text
  | _ => none

/-- `safe_int(x, default)`. -/
def safeInt (default : ℤ) (x : JsonValue) : ℤ := (num.int? x).getD default

/-- `[int(x) for x in ([] if xs is None else list(xs))]`; `none` is an exception. A text is
a list of its characters, a dictionary one of its keys. -/
def intList? : JsonValue → Option (List ℤ)
  | .null => some []
  | .arr items => items.mapM num.int?
  | .str text => text.toList.mapM fun char => num.intOfText (.singleton char)
  | .obj fields => fields.mapM fun field => num.intOfText field.1
  | _ => none

variable {num}

@[simp] theorem safeFloat?_num (q : ℚ) : num.safeFloat? (.float (.num q)) = some q := rfl

@[simp] theorem safeFloat_num (default q : ℚ) : num.safeFloat default (.float (.num q)) = q := rfl

@[simp] theorem safeInt_int (default n : ℤ) : num.safeInt default (.int n) = n := rfl

@[simp] theorem intList_ints (mask : List ℤ) :
    num.intList? (.arr (mask.map .int)) = some mask := by
  rw [intList?, List.mapM_map]
  exact (Fallible.mapM_some (g := id) fun _ _ => rfl).trans (by rw [List.map_id])

end NumberReading

end BlockEmulator
