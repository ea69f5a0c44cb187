import AtlasKernel.Lib.Text

/-! Strings by byte offsets, where a slice panics at an offset within a character, and the
numbers that are read from them, with the errors of the standard library. -/
namespace AtlasKernel.Lib

/-! ## Slices -/

/-- A text up to a byte offset and from there on; `none` within a character and behind the text. -/
def splitAtByte? : List Char → Nat → Option (List Char × List Char)
  | text, 0 => some ([], text)
  | [], _ + 1 => none
  | c :: text, n + 1 =>
    if c.utf8Size ≤ n + 1 then
      (splitAtByte? text (n + 1 - c.utf8Size)).map fun r => (c :: r.1, r.2)
    else none

/-- `&text[i..j]` -/
def strSlice? (text : List Char) (i j : Nat) : Option (List Char) :=
  if i ≤ j then do
    let (_, back) ← splitAtByte? text i
    let (middle, _) ← splitAtByte? back (j - i)
    return middle
  else none

theorem utf8_length_cons (c : Char) (text : List Char) :
    (utf8 (c :: text)).length = c.utf8Size + (utf8 text).length := by
  rw [utf8, List.flatMap_cons, List.length_append, String.length_utf8EncodeChar]
  rfl

theorem utf8_length_append (front back : List Char) :
    (utf8 (front ++ back)).length = (utf8 front).length + (utf8 back).length := by
  rw [utf8_append, List.length_append]

theorem utf8_length_ascii {text : List Char} (h : ∀ c ∈ text, c.utf8Size = 1) :
    (utf8 text).length = text.length := by
  induction text with
  | nil => rfl
  | cons c text ih =>
    obtain ⟨hc,hrest⟩ := List.forall_mem_cons.mp h
    rw [utf8_length_cons, hc, ih hrest, List.length_cons, Nat.add_comm]

theorem splitAtByte?_cons {c : Char} {n : Nat} (h : c.utf8Size ≤ n) (text : List Char) :
    splitAtByte? (c :: text) n =
      (splitAtByte? text (n - c.utf8Size)).map fun r => (c :: r.1, r.2) := by
  have hpos := c.utf8Size_pos
  cases n with
  | zero => omega
  | succ n => rw [splitAtByte?, if_pos h]

theorem splitAtByte?_within {c : Char} {n : Nat} (h : n < c.utf8Size) (hn : n ≠ 0)
    (text : List Char) : splitAtByte? (c :: text) n = none := by
  cases n with
  | zero => exact absurd rfl hn
  | succ n => rw [splitAtByte?, if_neg (Nat.not_le.mpr h)]

/-- Between two characters. -/
theorem splitAtByte?_append (front back : List Char) :
    splitAtByte? (front ++ back) (utf8 front).length = some (front, back) := by
  induction front with
  | nil => rw [List.nil_append, utf8, List.flatMap_nil, List.length_nil, splitAtByte?]
  | cons c front ih =>
    rw [List.cons_append, utf8_length_cons, splitAtByte?_cons (Nat.le_add_right _ _),
      Nat.add_sub_cancel_left, ih]
    rfl

/-- A slice that begins between two characters. -/
theorem strSlice?_append (front back : List Char) (n : Nat) :
    strSlice? (front ++ back) (utf8 front).length ((utf8 front).length + n) =
      (splitAtByte? back n).map Prod.fst := by
  rw [strSlice?, if_pos (Nat.le_add_right _ _), splitAtByte?_append, Nat.add_sub_cancel_left]
  simp only [Option.bind_eq_bind, Option.bind_some]
  cases splitAtByte? back n <;> rfl

/-- Two bytes are two characters, or one, or end within a character. -/
theorem splitAtByte?_two {text : List Char} (h : 2 ≤ (utf8 text).length) :
    (∃ a b rest, text = a :: b :: rest ∧ a.utf8Size = 1 ∧ b.utf8Size = 1 ∧
      splitAtByte? text 2 = some ([a, b], rest)) ∨
    (∃ c rest, text = c :: rest ∧ c.utf8Size = 2 ∧ splitAtByte? text 2 = some ([c], rest)) ∨
    (∃ c rest, text = c :: rest ∧ (3 ≤ c.utf8Size ∨
      c.utf8Size = 1 ∧ ∃ d more, rest = d :: more ∧ 2 ≤ d.utf8Size) ∧
      splitAtByte? text 2 = none) := by
  cases text with
  | nil => simp [utf8] at h
  | cons c rest =>
    have hsizes := c.utf8Size_eq
    by_cases hone : c.utf8Size = 1
    · cases rest with
      | nil =>
        rw [utf8_length_cons, hone] at h
        simp [utf8] at h
      | cons d more =>
        have hpos := d.utf8Size_pos
        rw [splitAtByte?_cons (by omega), hone]
        by_cases hnext : d.utf8Size = 1
        · refine .inl ⟨c,d,more,rfl,hone,hnext,?_⟩
          rw [splitAtByte?_cons (by omega), hnext, splitAtByte?]
          rfl
        · refine .inr (.inr ⟨c,d :: more,rfl,.inr ⟨hone,d,more,rfl,by omega⟩,?_⟩)
          rw [splitAtByte?_within (by omega) (by decide)]
          rfl
    · by_cases htwo : c.utf8Size = 2
      · refine .inr (.inl ⟨c,rest,rfl,htwo,?_⟩)
        rw [splitAtByte?_cons (by omega), htwo, splitAtByte?]
        rfl
      · refine .inr (.inr ⟨c,rest,rfl,.inl (by omega),?_⟩)
        exact splitAtByte?_within (by omega) (by decide) rest

/-! ## Numbers -/

inductive ParseIntError where
  | empty
  | invalidDigit
  | posOverflow
  | negOverflow
deriving DecidableEq, Repr

def ParseIntError.text : ParseIntError → String
  | .empty => "cannot parse integer from empty string"
  | .invalidDigit => "invalid digit found in string"
  | .posOverflow => "number too large to fit in target type"
  | .negOverflow => "number too small to fit in target type"

/-- The digits of a number that is at most `bound`, behind those of `value`. -/
def fromDigits (digit : Char → Option Nat) (radix bound value : Nat) :
    List Char → Except ParseIntError Nat
  | [] => .ok value
  | c :: cs =>
    match digit c with
    | none => .error .invalidDigit
    | some n =>
      if bound < value * radix + n then .error .posOverflow
      else fromDigits digit radix bound (value * radix + n) cs

/-- `from_str_radix` of an unsigned type; a plus sign alone is no digit. -/
def fromStrRadix (digit : Char → Option Nat) (radix bound : Nat) : List Char → Except ParseIntError Nat
  | [] => .error .empty
  | '+' :: c :: cs => fromDigits digit radix bound 0 (c :: cs)
  | c :: cs => fromDigits digit radix bound 0 (c :: cs)

/-- `str::parse` of an unsigned type. -/
def parseDecimal (bound : Nat) : List Char → Except ParseIntError Nat := fromStrRadix digitValue 10 bound

/-- `str::parse` of a signed type from `-bound - 1` to `bound`. -/
def parseSigned (bound : Nat) : List Char → Except ParseIntError Int
  | '-' :: c :: cs =>
    match fromDigits digitValue 10 (bound + 1) 0 (c :: cs) with
    | .ok n => .ok (-(n : Int))
    | .error .posOverflow => .error .negOverflow
    | .error e => .error e
  | text => (parseDecimal bound text).map Int.ofNat

/-- `u8::from_str_radix(_, 16)` -/
def parseHexByte : List Char → Except ParseIntError Nat := fromStrRadix hexDigitValue 16 255

/-- `char::is_ascii_hexdigit` -/
def isAsciiHexdigit (c : Char) : Bool := (hexDigitValue c).isSome

/-! ## Hex digits -/

theorem hexDigitValue_some {c : Char} {n : Nat} (h : hexDigitValue c = some n) :
    n < 16 ∧ c.utf8Size = 1 := by
  have hascii : c.toNat < 128 → c.utf8Size = 1 := by
    intro hlow
    rw [Char.utf8Size_eq_one_iff, UInt32.le_iff_toNat_le]
    exact Nat.le_of_lt_succ hlow
  have hle (d : Char) : c ≤ d ↔ c.toNat ≤ d.toNat := Iff.rfl
  have hge (d : Char) : d ≤ c ↔ d.toNat ≤ c.toNat := Iff.rfl
  have hzero : '0'.toNat = 48 ∧ '9'.toNat = 57 := ⟨rfl,rfl⟩
  have hlower : 'a'.toNat = 97 ∧ 'f'.toNat = 102 := ⟨rfl,rfl⟩
  have hupper : 'A'.toNat = 65 ∧ 'F'.toNat = 70 := ⟨rfl,rfl⟩
  rw [hexDigitValue] at h
  simp only [hle, hge, hzero, hlower, hupper] at h
  split_ifs at h
  all_goals
    cases h
    refine ⟨by omega,hascii (by omega)⟩

theorem isAsciiHexdigit_iff {c : Char} : isAsciiHexdigit c = true ↔ ∃ n, hexDigitValue c = some n :=
  Option.isSome_iff_exists

theorem isAsciiHexdigit_size {c : Char} (h : isAsciiHexdigit c = true) : c.utf8Size = 1 := by
  obtain ⟨n,hn⟩ := isAsciiHexdigit_iff.mp h
  exact (hexDigitValue_some hn).2

theorem not_hexdigit_plus : isAsciiHexdigit '+' = false := by decide

/-- A byte is read from two digits, and from a plus sign and one digit. -/
theorem parseHexByte_pair (hi lo : Char) :
    ((isAsciiHexdigit hi = true ∨ hi = '+') ∧ isAsciiHexdigit lo = true ∧
      parseHexByte [hi, lo] = .ok ((hexDigitValue hi).getD 0 * 16 + (hexDigitValue lo).getD 0)) ∨
    (¬ ((isAsciiHexdigit hi = true ∨ hi = '+') ∧ isAsciiHexdigit lo = true) ∧
      parseHexByte [hi, lo] = .error .invalidDigit) := by
  by_cases hplus : hi = '+'
  · subst hplus
    have hnone : hexDigitValue '+' = none := by decide
    rw [parseHexByte, fromStrRadix, fromDigits, hnone, Option.getD_none]
    cases hlo : hexDigitValue lo with
    | none => simp [isAsciiHexdigit, hlo]
    | some n =>
      have hlt := (hexDigitValue_some hlo).1
      have hfits : n ≤ 255 := by omega
      simp [isAsciiHexdigit, hlo, hfits, fromDigits]
  · have hparse : parseHexByte [hi, lo] = fromDigits hexDigitValue 16 255 0 [hi, lo] := by
      rw [parseHexByte, fromStrRadix]
      intro c cs hchar
      exact absurd hchar hplus
    rw [hparse, fromDigits]
    cases hhi : hexDigitValue hi with
    | none => simp [isAsciiHexdigit, hhi, hplus]
    | some m =>
      have hm := (hexDigitValue_some hhi).1
      have hfits : ¬ 255 < 0 * 16 + m := by omega
      simp only [if_neg hfits, fromDigits]
      cases hlo : hexDigitValue lo with
      | none => simp [isAsciiHexdigit, hlo]
      | some n =>
        have hn := (hexDigitValue_some hlo).1
        have hfits' : m * 16 + n ≤ 255 := by omega
        simp [isAsciiHexdigit, hhi, hlo, hfits']

/-- A character of two bytes is no digit. -/
theorem parseHexByte_wide {c : Char} (h : c.utf8Size = 2) :
    parseHexByte [c] = .error .invalidDigit := by
  have hnone : hexDigitValue c = none := by
    cases hc : hexDigitValue c with
    | none => rfl
    | some n =>
      have hone := (hexDigitValue_some hc).2
      omega
  rw [parseHexByte, fromStrRadix, fromDigits, hnone]
  simp

end AtlasKernel.Lib
