import BlockEmulator.Transaction
import Mathlib.Algebra.Order.Ring.Int

/-!
# Hash placement in the offline environment (`heuristic.addr2shard`)

The Python side places an address by the same idea as `Addr2ShardWithShardNum`: the
last eight characters as a hexadecimal number, or else a hash of the text. What it takes
for a number is decided by `int(text, 16)`, which is more liberal than `ParseUint`.

* `addr2shard_lt` — the result is a shard.
* `addr2shard_eq_of_goReads` — **both sides agree on the addresses that Go reads as
  numbers**; among them are the plain ones, which real accounts have.
-/

namespace BlockEmulator

/-! ## Python's view of a text -/

/-- `str.isspace` for one character: what `str.strip` removes. -/
def pyIsSpace (c : Char) : Bool :=
  let n := c.toNat
  decide (9 ≤ n ∧ n ≤ 13 ∨ 28 ≤ n ∧ n ≤ 32 ∨ n = 0x85 ∨ n = 0xA0 ∨ n = 0x1680 ∨
    0x2000 ≤ n ∧ n ≤ 0x200A ∨ n = 0x2028 ∨ n = 0x2029 ∨ n = 0x202F ∨ n = 0x205F ∨ n = 0x3000)

/-- `str.strip`. -/
def pyStrip (text : List Char) : List Char :=
  ((text.dropWhile pyIsSpace).reverse.dropWhile pyIsSpace).reverse

/-- `_PyUnicode_TransformDecimalAndSpaceToASCII`: a text beyond ASCII has its spaces and
decimal digits replaced; anything else beyond ASCII is replaced by a question mark.
`decimal` is the interpreter's Unicode table of decimal digits. -/
def transformDecimalAndSpace (decimal : Char → Option ℕ) (text : List Char) : List Char :=
  if text.all fun c => c.toNat < 128 then text
  else
    text.map fun c =>
      if c.toNat < 127 then c
      else if pyIsSpace c then ' '
      else
        match decimal c with
        | some d => Char.ofNat ('0'.toNat + d)
        | none => '?'

/-- `Py_ISSPACE`. -/
def pyIsAsciiSpace (c : Char) : Bool := decide (9 ≤ c.toNat ∧ c.toNat ≤ 13 ∨ c.toNat = 32)

/-- The digits of a number in base sixteen, single underscores between them allowed: the
number so far, whether the last character was a digit, and what is left to read. -/
def pyDigits16 : ℕ → Bool → List Char → Option ℕ
  | n, digit, [] => if digit then some n else none
  | n, digit, c :: cs =>
    match hexDigit c with
    | some d => pyDigits16 (16 * n + d) true cs
    | none => if c = '_' ∧ digit then pyDigits16 n false cs else none

/-- The sign in front of a number, and the rest. -/
def pySign : List Char → Bool × List Char
  | '+' :: cs => (false, cs)
  | '-' :: cs => (true, cs)
  | cs => (false, cs)

/-- The prefix `0x` is skipped, and one underscore behind it. -/
def pySkipPrefix : List Char → List Char
  | '0' :: x :: cs =>
    if x = 'x' ∨ x = 'X' then
      match cs with
      | '_' :: cs => cs
      | cs => cs
    else '0' :: x :: cs
  | cs => cs

/-- `PyLong_FromString(text, 16)`, with spaces around. -/
def pyLongFromString16 (text : List Char) : Option ℤ :=
  let text := ((text.dropWhile pyIsAsciiSpace).reverse.dropWhile pyIsAsciiSpace).reverse
  let negative := (pySign text).1
  (pyDigits16 0 false (pySkipPrefix (pySign text).2)).map fun n =>
    if negative then -(n : ℤ) else n

/-- `int(text, 16)`; `none` is the `ValueError`. -/
def pyInt16 (decimal : Char → Option ℕ) (text : List Char) : Option ℤ :=
  pyLongFromString16 (transformDecimalAndSpace decimal text)

variable {H : Type} (F : HashFns H) (decimal : Char → Option ℕ)

/-- The part of an address that `addr2shard` goes by: stripped, without its prefix, the
last eight characters. -/
def addressTail (addr : Address) : List Char :=
  let text := pyStrip addr.toList
  let text := if text.take 2 = ['0', 'x'] ∨ text.take 2 = ['0', 'X'] then text.drop 2 else text
  if text.length > 8 then text.drop (text.length - 8) else text

/-- `addr2shard`: a hash of the text where it is no number. -/
def addr2shard (addr : Address) (shards : ℕ) : ℕ :=
  (pyInt16 decimal (addressTail addr)).elim
    (modBytes (F.sha256 (String.ofList (addressTail addr)).toUTF8.toList) shards)
    fun n => (n % shards).toNat

theorem addr2shard_lt (addr : Address) {shards : ℕ} (h : 0 < shards) :
    addr2shard F decimal addr shards < shards := by
  rw [addr2shard]
  cases pyInt16 decimal (addressTail addr) with
  | none => exact Nat.mod_lt _ h
  | some n =>
    have hpos : (0 : ℤ) < shards := by omega
    have hnn := Int.emod_nonneg n hpos.ne'
    have hlt := Int.emod_lt_of_pos n hpos
    rw [Option.elim_some]
    omega

/-! ## Texts of hexadecimal digits -/

section

variable {c : Char} {cs : List Char}

theorem hexDigit_toNat (h : (hexDigit c).isSome = true) :
    48 ≤ c.toNat ∧ c.toNat ≤ 57 ∨ 97 ≤ c.toNat ∧ c.toNat ≤ 102 ∨
      65 ≤ c.toNat ∧ c.toNat ≤ 70 := by
  rw [hexDigit] at h
  split at h
  · rename_i hc
    exact .inl (by simpa [Char.le_def, UInt32.le_iff_toNat_le] using hc)
  split at h
  · rename_i hc
    exact .inr (.inl (by simpa [Char.le_def, UInt32.le_iff_toNat_le] using hc))
  split at h
  · rename_i hc
    exact .inr (.inr (by simpa [Char.le_def, UInt32.le_iff_toNat_le] using hc))
  · cases h

theorem pyIsSpace_eq_false (h : (hexDigit c).isSome = true) : pyIsSpace c = false := by
  have := hexDigit_toNat h
  rw [pyIsSpace, decide_eq_false_iff_not]
  omega

theorem pyIsAsciiSpace_eq_false (h : (hexDigit c).isSome = true) :
    pyIsAsciiSpace c = false := by
  have := hexDigit_toNat h
  rw [pyIsAsciiSpace, decide_eq_false_iff_not]
  omega

/-- Nothing is stripped from a text that has no character to strip. -/
theorem strip_eq_self {space : Char → Bool} (h : ∀ c ∈ cs, space c = false) :
    ((cs.dropWhile space).reverse.dropWhile space).reverse = cs := by
  have hdrop : ∀ l : List Char, (∀ c ∈ l, space c = false) → l.dropWhile space = l := by
    intro l hl
    cases l with
    | nil => rfl
    | cons c l => rw [List.dropWhile_cons_of_neg (by simp [hl c List.mem_cons_self])]
  rw [hdrop cs h, hdrop _ fun c hc => h c (List.mem_reverse.mp hc), List.reverse_reverse]

/-- Without underscores the digits are those that `ParseUint` reads. -/
theorem pyDigits16_eq (h : ∀ c ∈ cs, (hexDigit c).isSome = true) (n : ℕ) (digit : Bool)
    (hne : digit = true ∨ cs ≠ []) :
    pyDigits16 n digit cs = cs.foldlM (fun n c => (hexDigit c).map (16 * n + ·)) n := by
  induction cs generalizing n digit with
  | nil =>
    have hdigit : digit = true := by simpa using hne
    simp [pyDigits16, hdigit]
  | cons c cs ih =>
    obtain ⟨d, hd⟩ := Option.isSome_iff_exists.mp (h c List.mem_cons_self)
    rw [pyDigits16, hd, List.foldlM_cons, hd]
    exact ih (fun c hc => h c (List.mem_cons_of_mem _ hc)) _ _ (.inl rfl)

theorem foldlM_hexDigit_isSome_iff (n : ℕ) :
    (cs.foldlM (fun n c => (hexDigit c).map (16 * n + ·)) n).isSome = true ↔
      ∀ c ∈ cs, (hexDigit c).isSome = true := by
  induction cs generalizing n with
  | nil => exact iff_of_true rfl fun _ h => absurd h List.not_mem_nil
  | cons c cs ih =>
    rw [List.foldlM_cons, List.forall_mem_cons]
    cases hd : hexDigit c with
    | none => exact iff_of_false Bool.false_ne_true fun h => Bool.false_ne_true h.1
    | some d => exact (ih (16 * n + d)).trans (and_iff_right rfl).symm

theorem parseUint16_of_ne_nil (hne : cs ≠ []) :
    parseUint16 cs = cs.foldlM (fun n c => (hexDigit c).map (16 * n + ·)) 0 := by
  cases cs with
  | nil => exact absurd rfl hne
  | cons c cs => rfl

theorem parseUint16_isSome_iff :
    (parseUint16 cs).isSome = true ↔ cs ≠ [] ∧ ∀ c ∈ cs, (hexDigit c).isSome = true := by
  by_cases hne : cs = []
  · rw [hne]
    exact iff_of_false Bool.false_ne_true fun h => h.1 rfl
  · rw [parseUint16_of_ne_nil hne, foldlM_hexDigit_isSome_iff, and_iff_right hne]

theorem pySign_eq (h : ∀ c ∈ cs, (hexDigit c).isSome = true) : pySign cs = (false, cs) := by
  unfold pySign
  split
  · exact absurd (h '+' List.mem_cons_self) (by decide)
  · exact absurd (h '-' List.mem_cons_self) (by decide)
  · rfl

theorem pySkipPrefix_eq (h : ∀ c ∈ cs, (hexDigit c).isSome = true) : pySkipPrefix cs = cs := by
  unfold pySkipPrefix
  split
  · rename_i x cs
    have hx := h x (List.mem_cons_of_mem _ List.mem_cons_self)
    rw [if_neg]
    rintro (rfl | rfl)
    · exact absurd hx (by decide)
    · exact absurd hx (by decide)
  · rfl

/-- `int` reads hexadecimal digits as `ParseUint` does. -/
theorem pyInt16_eq (h : ∀ c ∈ cs, (hexDigit c).isSome = true) (hne : cs ≠ []) :
    pyInt16 decimal cs = (parseUint16 cs).map (fun n => (n : ℤ)) := by
  have hascii : (cs.all fun c => decide (c.toNat < 128)) = true := by
    rw [List.all_eq_true]
    intro c hc
    have := hexDigit_toNat (h c hc)
    exact decide_eq_true (by omega)
  rw [pyInt16, transformDecimalAndSpace, if_pos hascii, pyLongFromString16,
    strip_eq_self fun c hc => pyIsAsciiSpace_eq_false (h c hc), pySign_eq h, pySkipPrefix_eq h,
    pyDigits16_eq h 0 false (.inr hne), parseUint16_of_ne_nil hne]
  rfl

end

/-! ## Addresses that Go reads as numbers -/

/-- Whether a text has a prefix. -/
def HasPrefix (text : List Char) : Prop := text.take 2 = ['0', 'x'] ∨ text.take 2 = ['0', 'X']

instance (text : List Char) : Decidable (HasPrefix text) := inferInstanceAs (Decidable (_ ∨ _))

/-- A text without its prefix. -/
def withoutPrefix (text : List Char) : List Char := if HasPrefix text then text.drop 2 else text

/-- Whether Go reads an address as a number: it has hexadecimal digits only, and behind
a prefix at least eight. -/
def Address.GoReads (addr : Address) : Prop :=
  isHexAddressText addr.toList = true ∧ (HasPrefix addr.toList → 10 ≤ addr.toList.length)

instance (addr : Address) : Decidable addr.GoReads := inferInstanceAs (Decidable (_ ∧ _))

section

variable {text : List Char} {addr : Address}

theorem isHexAddressText_iff :
    isHexAddressText text = true ↔
      withoutPrefix text ≠ [] ∧ ∀ c ∈ withoutPrefix text, (hexDigit c).isSome = true := by
  change (!(withoutPrefix text).isEmpty && (withoutPrefix text).all _) = true ↔ _
  simp

theorem HasPrefix.eq (h : HasPrefix text) :
    ∃ x, (x = 'x' ∨ x = 'X') ∧ text = '0' :: x :: withoutPrefix text := by
  rw [withoutPrefix, if_pos h]
  rcases text with _ | ⟨a, _ | ⟨x, cs⟩⟩
  · simp [HasPrefix] at h
  · simp [HasPrefix] at h
  · have hax : a = '0' ∧ (x = 'x' ∨ x = 'X') := by simpa [HasPrefix, ← and_or_left] using h
    obtain ⟨rfl, hx⟩ := hax
    exact ⟨x, hx, rfl⟩

/-- A text of hexadecimal digits has no space to strip. -/
theorem pyStrip_of_hex (h : isHexAddressText text = true) : pyStrip text = text := by
  obtain ⟨-, hall⟩ := isHexAddressText_iff.mp h
  refine strip_eq_self fun c hc => ?_
  by_cases hp : HasPrefix text
  · obtain ⟨x, hx, heq⟩ := hp.eq
    rw [heq] at hc
    rcases List.mem_cons.mp hc with rfl | hc
    · decide
    rcases List.mem_cons.mp hc with rfl | hc
    · rcases hx with rfl | rfl
      · decide
      · decide
    · exact pyIsSpace_eq_false (hall c hc)
  · rw [withoutPrefix, if_neg hp] at hall
    exact pyIsSpace_eq_false (hall c hc)

theorem addressTail_eq (addr : Address) :
    addressTail addr = (withoutPrefix (pyStrip addr.toList)).drop
      ((withoutPrefix (pyStrip addr.toList)).length - 8) := by
  change (if (withoutPrefix (pyStrip addr.toList)).length > 8 then _ else _) = _
  split
  · rfl
  · rename_i hle
    rw [Nat.sub_eq_zero_of_le (not_lt.mp hle), List.drop_zero]
    rfl

/-- What Go reads are the last digits behind the prefix. -/
theorem goTail_eq (h : addr.GoReads) :
    addr.toList.drop (addr.toList.length - 8) = addressTail addr := by
  rw [addressTail_eq, pyStrip_of_hex h.1]
  by_cases hp : HasPrefix addr.toList
  · have hlen := h.2 hp
    obtain ⟨x, -, heq⟩ := hp.eq
    generalize withoutPrefix addr.toList = digits at heq
    rw [heq] at hlen ⊢
    have hdrop : ('0' :: x :: digits).length - 8 = digits.length - 8 + 2 := by
      rw [List.length_cons, List.length_cons] at hlen ⊢
      omega
    rw [hdrop]
    rfl
  · rw [withoutPrefix, if_neg hp]

/-- They are digits, and there is one. -/
theorem addressTail_of_hex (h : isHexAddressText addr.toList = true) :
    addressTail addr ≠ [] ∧ ∀ c ∈ addressTail addr, (hexDigit c).isSome = true := by
  obtain ⟨hne, hall⟩ := isHexAddressText_iff.mp h
  rw [addressTail_eq, pyStrip_of_hex h]
  refine ⟨fun hnil => ?_, fun c hc => hall c (List.mem_of_mem_drop hc)⟩
  have hlen : 0 < (withoutPrefix addr.toList).length := List.length_pos_of_ne_nil hne
  have := List.drop_eq_nil_iff.mp hnil
  omega

/-- Where Go reads a number, it is the number that `int` reads. -/
theorem number_of_goReads (h : addr.GoReads) :
    ∃ n, parseUint16 (addr.toList.drop (addr.toList.length - 8)) = some n ∧
      pyInt16 decimal (addressTail addr) = some (n : ℤ) := by
  obtain ⟨hne, hall⟩ := addressTail_of_hex h.1
  obtain ⟨n, hn⟩ := Option.isSome_iff_exists.mp (parseUint16_isSome_iff.mpr ⟨hne, hall⟩)
  rw [goTail_eq h, pyInt16_eq decimal hall hne, hn]
  exact ⟨n, rfl, rfl⟩

/-- **Both sides agree** where Go reads a number. -/
theorem addr2shard_eq_of_goReads (h : addr.GoReads) {shards : ℕ} (hs : 0 < shards) :
    addr2shard F decimal addr shards = addr2ShardWithShardNum F addr shards := by
  obtain ⟨n, hgo, hpy⟩ := number_of_goReads decimal h
  rw [addr2ShardWithShardNum, if_neg hs.ne', addr2shard, hpy]
  simp only [h.1, hgo, if_true]
  exact Int.toNat_emod (Int.natCast_nonneg n) (Int.natCast_nonneg shards)

end

/-! ## Plain hexadecimal addresses -/

/-- The digits of the pattern `[0-9a-f]`. -/
def isLowerHex (c : Char) : Bool := decide ('0' ≤ c ∧ c ≤ '9' ∨ 'a' ≤ c ∧ c ≤ 'f')

/-- The pattern `^[0-9a-f]{40}$`: what is left of a real account's address when its
prefix is gone. -/
def Address.IsPlain (addr : Address) : Prop :=
  addr.toList.length = 40 ∧ addr.toList.all isLowerHex = true

instance (addr : Address) : Decidable addr.IsPlain := inferInstanceAs (Decidable (_ ∧ _))

section

variable {c : Char} {addr : Address}

theorem hexDigit_isSome (h : isLowerHex c = true) : (hexDigit c).isSome = true := by
  have h' : '0' ≤ c ∧ c ≤ '9' ∨ 'a' ≤ c ∧ c ≤ 'f' := by simpa [isLowerHex] using h
  rw [hexDigit]
  split
  · rfl
  split
  · rfl
  · rename_i h0 ha
    rcases h' with h' | h'
    · exact absurd h' h0
    · exact absurd h' ha

theorem Address.IsPlain.goReads (h : addr.IsPlain) : addr.GoReads := by
  obtain ⟨hlen, hall⟩ := h
  have hplain : ∀ c ∈ addr.toList, isLowerHex c = true := List.all_eq_true.mp hall
  have hno : ¬ HasPrefix addr.toList := by
    intro hp
    obtain ⟨x, hx, heq⟩ := hp.eq
    have hmem : x ∈ addr.toList := by
      rw [heq]
      exact List.mem_cons_of_mem _ List.mem_cons_self
    have hlower := hplain x hmem
    rcases hx with rfl | rfl
    · exact absurd hlower (by decide)
    · exact absurd hlower (by decide)
  refine ⟨isHexAddressText_iff.mpr ?_, fun hp => absurd hp hno⟩
  rw [withoutPrefix, if_neg hno]
  refine ⟨fun hnil => ?_, fun c hc => hexDigit_isSome (hplain c hc)⟩
  rw [hnil] at hlen
  cases hlen

/-- **Both sides agree on plain addresses.** -/
theorem addr2shard_eq (h : addr.IsPlain) {shards : ℕ} (hs : 0 < shards) :
    addr2shard F decimal addr shards = addr2ShardWithShardNum F addr shards :=
  addr2shard_eq_of_goReads F decimal h.goReads hs

end

end BlockEmulator
