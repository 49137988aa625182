import BlockEmulator.DatasetRows
import Mathlib.Data.List.Infix
import Mathlib.Data.Rat.Defs
import Mathlib.Algebra.Order.Ring.Abs
import Mathlib.Algebra.Order.Ring.Rat

/-!
# The cells of a sidecar row, read twice

Both sides read numbers, lists and names out of the same cells, one by `ParseFloat`,
`TrimSpace` and `ToLower`, the other by `float`, `strip` and `lower`. Arithmetic is exact:
a cell that reads as infinite or as not a number gives none.

* `springIOTNumber`, `numericIotCell` — a number, zero where the text is none.
* `springIOTSplitList`, `splitIotList` — a list; only Go cleans its entries.
* `springIOTNumber_eq_of_plain` — **plain numbers are read alike**.
-/

namespace BlockEmulator

/-- The cells of a row by the name of their column; a missing cell is empty. -/
abbrev SidecarRow : Type := String → List Char

/-- What the libraries know about texts beyond ASCII, and about addresses. -/
structure TextTables where
  /-- `unicode.ToLower`, beyond ASCII -/
  toLower : Char → Char
  /-- `str.lower`, for texts beyond ASCII -/
  lower : List Char → List Char
  /-- the interpreter's table of decimal digits -/
  decimal : Char → Option ℕ
  /-- whether `netip.ParseAddr` gives an address with `IsPrivate` -/
  isPrivate : List Char → Bool

/-- Texts are looked up in lists character by character. -/
instance lawfulBEqText : LawfulBEq (List Char) := List.instLawfulBEq

/-! ## Numbers -/

/-- Single underscores between digits go; anywhere else they are an error. The flag is
for a digit just before. -/
def dropUnderscores (digit : Char → Option ℕ) : Bool → List Char → Option (List Char)
  | _, [] => some []
  | prev, c :: cs =>
    if c = '_' then
      if prev ∧ (cs.head?.bind digit).isSome then dropUnderscores digit false cs else none
    else (dropUnderscores digit (digit c).isSome cs).map (c :: ·)

/-- The digits in front, added to a number: the number, how many digits, and the rest. -/
def spanDigits (base : ℕ) (digit : Char → Option ℕ) : ℕ → ℕ → List Char → ℕ × ℕ × List Char
  | n, k, [] => (n, k, [])
  | n, k, c :: cs =>
    match digit c with
    | some d => spanDigits base digit (base * n + d) (k + 1) cs
    | none => (n, k, c :: cs)

/-- The exponent: its letter, a sign, digits to the end. -/
def readExponent (letter : Char) : List Char → Option ℤ
  | [] => none
  | c :: cs =>
    if c.toLower = letter then
      let digits := spanDigits 10 decDigit 0 0 (pySign cs).2
      if digits.2.1 = 0 ∨ digits.2.2 ≠ [] then none
      else some (if (pySign cs).1 then -(digits.1 : ℤ) else digits.1)
    else none

/-- Digits with a point between or beside them, before an exponent: the number so far,
how many digits follow the point, and the rest. -/
def readMantissa (base : ℕ) (digit : Char → Option ℕ) (text : List Char) :
    Option (ℕ × ℕ × List Char) :=
  let whole := spanDigits base digit 0 0 text
  let part :=
    if whole.2.2.head? = some '.' then spanDigits base digit whole.1 0 whole.2.2.tail
    else (whole.1, 0, whole.2.2)
  if whole.2.1 + part.2.1 = 0 then none else some part

/-- A decimal number without its sign. -/
def readDecimal (text : List Char) : Option ℚ :=
  (readMantissa 10 decDigit text).bind fun m =>
    (if m.2.2 = [] then some 0 else readExponent 'e' m.2.2).map fun e =>
      (m.1 : ℚ) / 10 ^ m.2.1 * (10 : ℚ) ^ e

/-- A hexadecimal number without its sign and prefix; the exponent cannot be left out. -/
def readHexadecimal (text : List Char) : Option ℚ :=
  (readMantissa 16 hexDigit text).bind fun m =>
    (readExponent 'p' m.2.2).map fun e => (m.1 : ℚ) / 16 ^ m.2.1 * (2 : ℚ) ^ e

/-- From here on a number is none of a `float64`. -/
def floatLimit : ℚ := 2 ^ 1024 - 2 ^ 970

/-- The names of the infinities. -/
def infinityNames : List (List Char) :=
  [['i', 'n', 'f'], ['i', 'n', 'f', 'i', 'n', 'i', 't', 'y']]

/-- The name of what is not a number. -/
def nanName : List Char := ['n', 'a', 'n']

/-- `strconv.ParseFloat(_, 64)`: the outer `none` is an error, the inner one an infinity or
`NaN`. Only infinities have signs; too large numbers are an error. -/
def parseFloat (text : List Char) : Option (Option ℚ) :=
  let body := (pySign text).2
  if body.map Char.toLower ∈ infinityNames ∨ text.map Char.toLower = nanName then some none
  else
    let read :=
      if body.take 2 = ['0', 'x'] ∨ body.take 2 = ['0', 'X'] then
        (dropUnderscores hexDigit true (body.drop 2)).bind readHexadecimal
      else (dropUnderscores decDigit false body).bind readDecimal
    read.bind fun q => if floatLimit ≤ q then none else some (some (if (pySign text).1 then -q else q))

/-- `float(text)`; the outer `none` is the `ValueError`, the inner one an infinity or `nan`.
Too large numbers are infinite. -/
def pyFloat (decimal : Char → Option ℕ) (text : List Char) : Option (Option ℚ) :=
  let text := transformDecimalAndSpace decimal text
  let text := ((text.dropWhile pyIsAsciiSpace).reverse.dropWhile pyIsAsciiSpace).reverse
  (dropUnderscores decDigit false text).bind fun text =>
    let body := (pySign text).2
    if body.map Char.toLower ∈ infinityNames ∨ body.map Char.toLower = nanName then some none
    else
      (readDecimal body).map fun q =>
        if floatLimit ≤ q then none else some (if (pySign text).1 then -q else q)

/-- `strconv.ParseUint(_, 10, 64)`. -/
def parseUint64 (text : List Char) : Option ℕ :=
  if text = [] then none
  else
    (text.foldlM (fun (n : ℕ) c => (decDigit c).map (10 * n + ·)) 0).bind fun n =>
      if n < 2 ^ 64 then some n else none

/-! ## Cells -/

/-- Quotes go from both ends: `strings.Trim` and `str.strip` with a set of one. -/
def trimQuotes (text : List Char) : List Char :=
  ((text.dropWhile (· == '\"')).reverse.dropWhile (· == '\"')).reverse

/-- `springIOTCleanCell`. -/
def springIOTCleanCell (value : List Char) : List Char := trimQuotes (trimSpace value)

/-- `springIOTNumber`. -/
def springIOTNumber (value : List Char) : Option ℚ :=
  (parseFloat (springIOTCleanCell value)).getD (some 0)

/-- `springIOTSplitList`: the entries are cleaned like cells. -/
def springIOTSplitList (value : List Char) : List (List Char) :=
  let text := springIOTCleanCell value
  if text = [] then []
  else ((text.splitOn ';').map springIOTCleanCell).filter fun part => part ≠ []

/-- `clean_iot_cell`. -/
def cleanIotCell (value : List Char) : List Char := trimQuotes (pyStrip value)

/-- `numeric_iot_cell`. -/
def numericIotCell (T : TextTables) (value : List Char) : Option ℚ :=
  (pyFloat T.decimal (cleanIotCell value)).getD (some 0)

/-- `split_iot_list`: the entries keep their quotes. -/
def splitIotList (value : List Char) : List (List Char) :=
  let text := cleanIotCell value
  if text = [] then []
  else ((text.splitOn ';').map pyStrip).filter fun part => part ≠ []

/-- `strings.ToLower`. -/
def stringsToLower (T : TextTables) (text : List Char) : List Char :=
  text.map fun c => if c.toNat < 128 then c.toLower else T.toLower c

/-- `str.lower`. -/
def strLower (T : TextTables) (text : List Char) : List Char :=
  if text.all fun c => c.toNat < 128 then text.map Char.toLower else T.lower text

/-- `strings.Contains`, and `in` for texts. -/
def containsText (text : List Char) (word : String) : Bool := decide (word.toList <:+: text)

/-! ## Plain numbers -/

/-- The characters of decimal numbers. -/
def plainChars : List Char :=
  ['0', '1', '2', '3', '4', '5', '6', '7', '8', '9', '.', '+', '-', 'e', 'E', '_']

theorem pySign_subset (text : List Char) : (pySign text).2 ⊆ text := by
  intro c hc
  unfold pySign at hc
  split at hc
  · exact List.mem_cons_of_mem _ hc
  · exact List.mem_cons_of_mem _ hc
  · exact hc

theorem dropUnderscores_subset {digit : Char → Option ℕ} {text text' : List Char} {prev : Bool}
    (h : dropUnderscores digit prev text = some text') : text' ⊆ text := by
  induction text generalizing prev text' with
  | nil =>
    cases h
    exact List.Subset.refl _
  | cons c cs ih =>
    rw [dropUnderscores] at h
    split at h
    · split at h
      · exact fun x hx => List.mem_cons_of_mem _ (ih h hx)
      · cases h
    · obtain ⟨rest, hrest, rfl⟩ := Option.map_eq_some_iff.mp h
      exact List.cons_subset_cons c (ih hrest)

/-- A sign is no digit, so it may be taken off before the underscores or after them. -/
theorem pySign_dropUnderscores (text : List Char) :
    (dropUnderscores decDigit false text).map pySign =
      (dropUnderscores decDigit false (pySign text).2).map ((pySign text).1, ·) := by
  cases text with
  | nil => rfl
  | cons c cs =>
    by_cases hplus : c = '+'
    · subst hplus
      show ((dropUnderscores decDigit false cs).map _).map _ = _
      rw [Option.map_map]
      rfl
    by_cases hminus : c = '-'
    · subst hminus
      show ((dropUnderscores decDigit false cs).map _).map _ = _
      rw [Option.map_map]
      rfl
    have hsign : ∀ rest, pySign (c :: rest) = (false, c :: rest) := by
      intro rest
      unfold pySign
      split
      · next heq => exact absurd (List.cons.inj heq).1 hplus
      · next heq => exact absurd (List.cons.inj heq).1 hminus
      · rfl
    rw [hsign]
    by_cases hunder : c = '_'
    · subst hunder
      rfl
    · rw [dropUnderscores, if_neg hunder, Option.map_map, Option.map_map]
      exact congrArg (Option.map · _) (funext hsign)

/-- What no plain character is, no character of a plain text is. -/
theorem eq_false_of_plain {p : Char → Bool} (h : plainChars.all (fun c => !p c) = true)
    {text : List Char} (hplain : text ⊆ plainChars) : ∀ c ∈ text, p c = false := by
  intro c hc
  have hc' := List.all_eq_true.mp h c (hplain hc)
  rwa [Bool.not_eq_true'] at hc'

section

variable {text : List Char} (hplain : text ⊆ plainChars)

include hplain

theorem not_special_of_plain :
    ¬(text.map Char.toLower ∈ infinityNames ∨ text.map Char.toLower = nanName) := by
  have hnone : 'n' ∉ text.map Char.toLower := by
    intro h
    obtain ⟨c, hc, hn⟩ := List.mem_map.mp h
    have hc' := eq_false_of_plain (p := fun c => c.toLower == 'n') (by decide) hplain c hc
    exact ne_of_beq_false hc' hn
  rintro (h | h)
  · simp only [infinityNames, List.mem_cons, List.not_mem_nil, or_false] at h
    rcases h with h | h
    · exact hnone (h ▸ by decide)
    · exact hnone (h ▸ by decide)
  · exact hnone (h ▸ by decide)

theorem not_hexadecimal_of_plain : ¬(text.take 2 = ['0', 'x'] ∨ text.take 2 = ['0', 'X']) := by
  rintro (h | h)
  · have hx : 'x' ∈ text.take 2 := h ▸ List.mem_cons_of_mem _ List.mem_cons_self
    exact absurd (hplain (List.mem_of_mem_take hx)) (by decide)
  · have hx : 'X' ∈ text.take 2 := h ▸ List.mem_cons_of_mem _ List.mem_cons_self
    exact absurd (hplain (List.mem_of_mem_take hx)) (by decide)

theorem trimQuotes_of_plain : trimQuotes text = text :=
  strip_eq_self (eq_false_of_plain (by decide) hplain)

theorem cleanCell_of_plain : springIOTCleanCell text = text := by
  have htrim : trimSpace text = text := strip_eq_self (eq_false_of_plain (by decide) hplain)
  rw [springIOTCleanCell, htrim, trimQuotes_of_plain hplain]

theorem cleanIotCell_of_plain : cleanIotCell text = text := by
  have hstrip : pyStrip text = text := strip_eq_self (eq_false_of_plain (by decide) hplain)
  rw [cleanIotCell, hstrip, trimQuotes_of_plain hplain]

/-- `float` on a plain number: what `ParseFloat` does, save for numbers that are too large. -/
theorem pyFloat_of_plain (decimal : Char → Option ℕ) :
    pyFloat decimal text =
      ((dropUnderscores decDigit false (pySign text).2).bind readDecimal).map fun q =>
        if floatLimit ≤ q then none else some (if (pySign text).1 then -q else q) := by
  have hascii : (text.all fun c => c.toNat < 128) = true := by
    refine List.all_eq_true.mpr fun c hc => ?_
    have hc' := eq_false_of_plain (p := fun c => !decide (c.toNat < 128)) (by decide) hplain c hc
    rwa [Bool.not_eq_false'] at hc'
  have hstrip : ((text.dropWhile pyIsAsciiSpace).reverse.dropWhile pyIsAsciiSpace).reverse = text :=
    strip_eq_self (eq_false_of_plain (by decide) hplain)
  have hsign := pySign_dropUnderscores text
  simp only [pyFloat, transformDecimalAndSpace, if_pos hascii, hstrip]
  cases hdrop : dropUnderscores decDigit false text with
  | none =>
    rw [hdrop] at hsign
    rw [Option.map_eq_none_iff.mp hsign.symm]
    rfl
  | some text' =>
    rw [hdrop] at hsign
    obtain ⟨body, hbody, hpair⟩ := Option.map_eq_some_iff.mp hsign.symm
    have hsub : (pySign text').2 ⊆ plainChars := fun c hc =>
      hplain (dropUnderscores_subset hdrop (pySign_subset _ hc))
    rw [hbody, Option.bind_some, Option.bind_some, if_neg (not_special_of_plain hsub), ← hpair]

/-- Plain numbers are read alike, unless they are too large for a `float64`. -/
theorem springIOTNumber_eq_of_plain {T : TextTables} {q : ℚ}
    (h : numericIotCell T text = some q) : springIOTNumber text = some q := by
  have hbody : (pySign text).2 ⊆ plainChars := fun c hc => hplain (pySign_subset _ hc)
  have hspecial : ¬((pySign text).2.map Char.toLower ∈ infinityNames ∨
      text.map Char.toLower = nanName) := by
    rintro (h | h)
    · exact not_special_of_plain hbody (.inl h)
    · exact not_special_of_plain hplain (.inr h)
  rw [numericIotCell, cleanIotCell_of_plain hplain, pyFloat_of_plain hplain] at h
  rw [springIOTNumber, cleanCell_of_plain hplain, parseFloat]
  simp only [if_neg hspecial, if_neg (not_hexadecimal_of_plain hbody)]
  cases hread : (dropUnderscores decDigit false (pySign text).2).bind readDecimal with
  | none =>
    rw [hread] at h
    exact h
  | some r =>
    rw [hread, Option.map_some, Option.getD_some] at h
    split at h
    · cases h
    · next hlimit => rw [Option.bind_some, if_neg hlimit, Option.getD_some, h]

end

end BlockEmulator
