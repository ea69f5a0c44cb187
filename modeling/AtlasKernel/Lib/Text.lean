import AtlasKernel.Lib.Bytes
import Mathlib.Data.List.TakeWhile
import Mathlib.Tactic.Conv

/-! Text functions of the standard library, on the characters of a string. -/
namespace AtlasKernel.Lib

def replacementCharacter : Char := '\uFFFD'

def isContinuation (b : UInt8) : Bool := 0x80 ≤ b && b ≤ 0xbf

/-- The second byte that may stand behind a lead byte. -/
def isSecond (lead b : UInt8) : Bool :=
  if lead = 0xe0 then 0xa0 ≤ b && b ≤ 0xbf
  else if lead = 0xed then 0x80 ≤ b && b ≤ 0x9f
  else if lead = 0xf0 then 0x90 ≤ b && b ≤ 0xbf
  else if lead = 0xf4 then 0x80 ≤ b && b ≤ 0x8f
  else isContinuation b

/-- `String::from_utf8_lossy`: a sequence that breaks off is replaced as far as it goes. -/
def fromUtf8Lossy : Bytes → List Char
  | [] => []
  | a :: as =>
    if a < 0x80 then Char.ofNat a.toNat :: fromUtf8Lossy as
    else if a < 0xc2 || 0xf4 < a then replacementCharacter :: fromUtf8Lossy as
    else match as with
      | [] => [replacementCharacter]
      | b :: bs =>
        if !isSecond a b then replacementCharacter :: fromUtf8Lossy (b :: bs)
        else if a < 0xe0 then
          Char.ofNat (a.toNat % 32 * 64 + b.toNat % 64) :: fromUtf8Lossy bs
        else match bs with
          | [] => [replacementCharacter]
          | c :: cs =>
            if !isContinuation c then replacementCharacter :: fromUtf8Lossy (c :: cs)
            else if a < 0xf0 then
              Char.ofNat ((a.toNat % 16 * 64 + b.toNat % 64) * 64 + c.toNat % 64) ::
                fromUtf8Lossy cs
            else match cs with
              | [] => [replacementCharacter]
              | d :: ds =>
                if !isContinuation d then replacementCharacter :: fromUtf8Lossy (d :: ds)
                else Char.ofNat (((a.toNat % 8 * 64 + b.toNat % 64) * 64 + c.toNat % 64) * 64 +
                  d.toNat % 64) :: fromUtf8Lossy ds

/-- `String::from_utf8` -/
def fromUtf8 (bytes : Bytes) : Except String String :=
  match String.fromUTF8? bytes.toByteArray with
  | some text => .ok text
  | none => .error "invalid utf-8 sequence"

/-- A line without the carriage return before its end. -/
def stripCarriageReturn (line : List Char) : List Char :=
  if line.getLast? = some '\r' then line.dropLast else line

/-- `str::lines` -/
def lines (text : List Char) : List (List Char) :=
  let parts := text.splitOn '\n'
  let last := parts.getLastD []
  parts.dropLast.map stripCarriageReturn ++ if last = [] then [] else [last]

/-- `str::split_once` at a character -/
def splitOnce (sep : Char) : List Char → Option (List Char × List Char)
  | [] => none
  | c :: cs => if c = sep then some ([], cs) else (splitOnce sep cs).map fun r => (c :: r.1, r.2)

/-- `str::rsplit_once` at a character -/
def rsplitOnce (sep : Char) (text : List Char) : Option (List Char × List Char) :=
  (splitOnce sep text.reverse).map fun r => (r.2.reverse, r.1.reverse)

/-- `str::split` at `"\r\n"` -/
def splitCrlf : List Char → List (List Char)
  | '\r' :: '\n' :: cs => [] :: splitCrlf cs
  | c :: cs =>
    match splitCrlf cs with
    | part :: parts => (c :: part) :: parts
    | [] => [[c]]
  | [] => [[]]

/-- `str::strip_prefix` -/
def stripPrefix (pattern text : List Char) : Option (List Char) :=
  if pattern.isPrefixOf text then some (text.drop pattern.length) else none

/-- `str::replacen` with the count 1 -/
def replaceFirst (pattern replacement : List Char) : List Char → List Char
  | [] => if pattern = [] then replacement else []
  | c :: cs =>
    if pattern.isPrefixOf (c :: cs) then replacement ++ (c :: cs).drop pattern.length
    else c :: replaceFirst pattern replacement cs

/-- A decision about the characters of a text, not about all characters. -/
theorem forall_mem_of_all {p : Char → Prop} [DecidablePred p] {text : List Char}
    (h : text.all (fun c => decide (p c)) = true) : ∀ c ∈ text, p c := by
  simpa using h

def digitValue (c : Char) : Option Nat :=
  if '0' ≤ c ∧ c ≤ '9' then some (c.toNat - '0'.toNat) else none

def parseDigits (bound : Nat) (value : Nat) : List Char → Option Nat
  | [] => some value
  | c :: cs =>
    match digitValue c with
    | none => none
    | some digit =>
      if bound < value * 10 + digit then none else parseDigits bound (value * 10 + digit) cs

/-- `str::parse` for an unsigned type with the greatest value `bound`. -/
def parseUnsigned (bound : Nat) (text : List Char) : Option Nat :=
  match text with
  | [] => none
  | '+' :: c :: cs => parseDigits bound 0 (c :: cs)
  | c :: cs => parseDigits bound 0 (c :: cs)

/-- `char::to_digit(16)` -/
def hexDigitValue (c : Char) : Option Nat :=
  if '0' ≤ c ∧ c ≤ '9' then some (c.toNat - '0'.toNat)
  else if 'a' ≤ c ∧ c ≤ 'f' then some (c.toNat - 'a'.toNat + 10)
  else if 'A' ≤ c ∧ c ≤ 'F' then some (c.toNat - 'A'.toNat + 10)
  else none

def parseHexDigits (bound : Nat) (value : Nat) : List Char → Option Nat
  | [] => some value
  | c :: cs =>
    match hexDigitValue c with
    | none => none
    | some digit =>
      if bound < value * 16 + digit then none else parseHexDigits bound (value * 16 + digit) cs

/-- `from_str_radix` at 16, for an unsigned type with the greatest value `bound`. -/
def parseHex (bound : Nat) (text : List Char) : Option Nat :=
  match text with
  | [] => none
  | '+' :: c :: cs => parseHexDigits bound 0 (c :: cs)
  | c :: cs => parseHexDigits bound 0 (c :: cs)

/-- `str::split_whitespace` -/
def splitWhitespace (text : List Char) : List (List Char) :=
  (text.splitOnP isWhitespace).filter (· ≠ [])

/-- `str::trim_end_matches` of a character -/
def trimEndMatches (c : Char) (text : List Char) : List Char :=
  (text.reverse.dropWhile (· = c)).reverse

/-- `str::to_ascii_lowercase` -/
def toAsciiLowercase (text : List Char) : List Char := text.map Char.toLower

theorem toLower_of_not_upper {c : Char} (h : ¬ (65 ≤ c.toNat ∧ c.toNat ≤ 90)) : c.toLower = c :=
  dif_neg h

/-- A letter stays a letter. -/
theorem toNat_toLower {c : Char} (h : 65 ≤ c.toNat ∧ c.toNat ≤ 90) :
    c.toLower.toNat = c.toNat + 32 := by
  have hlower : c.toLower.val = c.val + 32 := congrArg Char.val (dif_pos h)
  have hval : c.toLower.toNat = (c.val + 32).toNat := congrArg UInt32.toNat hlower
  have hhigh : c.val.toNat ≤ 90 := h.2
  have hnat : c.toNat = c.val.toNat := rfl
  rw [hval, hnat, UInt32.toNat_add]
  simp
  omega

theorem toList_toLower (text : String) : text.toLower.toList = text.toList.map Char.toLower :=
  String.toList_map

theorem length_toLower (text : String) : text.toLower.length = text.length := String.length_map

def hexDigit (n : Nat) : Char := "0123456789abcdef".toList.getD n '0'

/-- `{:x}` of a digest -/
def hex (bytes : Bytes) : List Char :=
  bytes.flatMap fun b => [hexDigit (b.toNat / 16), hexDigit (b.toNat % 16)]

theorem notMem_digits {c : Char} (hc : c.isDigit = false) (n : Nat) : c ∉ Nat.toDigits 10 n := by
  intro h
  rw [Nat.isDigit_of_mem_toDigits (by decide) (by decide) h] at hc
  cases hc

theorem notMem_hex {c : Char} (hc : c ∉ "0123456789abcdef".toList) (bytes : Bytes) : c ∉ hex bytes := by
  have hdigit : ∀ d < 16, hexDigit d ∈ "0123456789abcdef".toList := by decide
  intro h
  rw [hex, List.mem_flatMap] at h
  obtain ⟨b,_,hmem⟩ := h
  have hlt := b.toNat_lt
  simp only [List.mem_cons, List.not_mem_nil, or_false] at hmem
  cases hmem with
  | inl hhigh => exact hc (hhigh ▸ hdigit _ (by omega))
  | inr hlow => exact hc (hlow ▸ hdigit _ (by omega))

/-! ## UTF-8 -/

theorem utf8_append (as bs : List Char) : utf8 (as ++ bs) = utf8 as ++ utf8 bs :=
  List.flatMap_append

theorem length_le_utf8 (text : List Char) : text.length ≤ (utf8 text).length := by
  induction text with
  | nil => exact Nat.le_refl _
  | cons c cs ih =>
    have hpos := List.length_pos_iff.mpr (@String.utf8EncodeChar_ne_nil c)
    rw [utf8, List.flatMap_cons, List.length_append, List.length_cons]
    exact Nat.add_comm cs.length 1 ▸ Nat.add_le_add hpos ih

theorem toByteArray_utf8 (text : String) : (utf8 text.toList).toByteArray = text.toByteArray := by
  conv_rhs => rw [← String.ofList_toList (s := text), String.toByteArray_ofList]
  rfl

theorem fromUtf8_utf8 (text : String) : fromUtf8 (utf8 text.toList) = .ok text := by
  have hbytes := toByteArray_utf8 text
  have hvalid : text.toByteArray.IsValidUTF8 := text.isValidUTF8
  rw [fromUtf8, hbytes, String.fromUTF8?, dif_pos hvalid]
  rfl

theorem utf8_of_fromUtf8 {bytes : Bytes} {text : String} (h : fromUtf8 bytes = .ok text) :
    utf8 text.toList = bytes := by
  rw [fromUtf8, String.fromUTF8?] at h
  split_ifs at h with hvalid
  have htext : bytes.toByteArray = text.toByteArray := congrArg String.toByteArray (Except.ok.inj h)
  rw [← toByteArray_utf8] at htext
  exact List.toByteArray_inj.mp htext.symm

theorem utf8_injective {as bs : List Char} (h : utf8 as = utf8 bs) : as = bs := by
  have has := fromUtf8_utf8 (String.ofList as)
  have hbs := fromUtf8_utf8 (String.ofList bs)
  rw [String.toList_ofList] at has hbs
  rw [h, hbs, Except.ok.injEq] at has
  have htext := congrArg String.toList has
  rw [String.toList_ofList, String.toList_ofList] at htext
  exact htext.symm

/-! ## ASCII -/

theorem utf8EncodeChar_ascii {c : Char} (h : c.toNat < 128) :
    String.utf8EncodeChar c = [UInt8.ofNat c.toNat] := by
  have hle : c.val.toNat ≤ 127 := Nat.le_of_lt_succ h
  rw [String.utf8EncodeChar]
  simp only [hle, if_true]
  rfl

theorem ofNat_ascii {n : Nat} (h : n < 128) : (Char.ofNat n).toNat = n := by
  have hvalid : n.isValidChar := .inl (h.trans (by decide))
  rw [Char.ofNat, dif_pos hvalid]
  rfl

/-- A character is one byte below 128, or all of its bytes are 128 and above. -/
theorem utf8EncodeChar_cases (c : Char) :
    (c.toNat < 128 ∧ String.utf8EncodeChar c = [UInt8.ofNat c.toNat]) ∨
      (128 ≤ c.toNat ∧ ∀ b ∈ String.utf8EncodeChar c, 128 ≤ b.toNat) := by
  by_cases hc : c.toNat < 128
  · exact .inl ⟨hc,utf8EncodeChar_ascii hc⟩
  · refine .inr ⟨Nat.le_of_not_lt hc,fun b hb => ?_⟩
    have hval : c.val.toNat = c.toNat := rfl
    have hmax : c.toNat < 0x110000 := by
      rcases c.valid with h | h
      · exact h.trans (by decide)
      · exact h.2
    simp only [String.utf8EncodeChar, hval] at hb
    -- every byte is the sum of a remainder and the mark of its place
    have hmark {n : Nat} (h : 128 ≤ n % 256) : 128 ≤ (UInt8.ofNat n).toNat := by
      rw [UInt8.toNat_ofNat']
      exact h
    split_ifs at hb
    · omega
    all_goals
      simp only [List.mem_cons, List.not_mem_nil, or_false] at hb
    · rcases hb with rfl | rfl <;> exact hmark (by omega)
    · rcases hb with rfl | rfl | rfl <;> exact hmark (by omega)
    · rcases hb with rfl | rfl | rfl | rfl <;> exact hmark (by omega)

/-- A byte below 128 stands for a character of its own, wherever it is found. -/
theorem utf8_split {text : List Char} {as bs : Bytes} {b : UInt8} (hb : b.toNat < 128)
    (h : utf8 text = as ++ b :: bs) :
    ∃ before after c, text = before ++ c :: after ∧ utf8 before = as ∧ utf8 after = bs ∧
      c.toNat = b.toNat := by
  induction text generalizing as with
  | nil => simp [utf8] at h
  | cons c cs ih =>
    rw [utf8, List.flatMap_cons] at h
    change String.utf8EncodeChar c ++ utf8 cs = _ at h
    rcases utf8EncodeChar_cases c with ⟨hc,henc⟩ | ⟨-,henc⟩
    · rw [henc] at h
      cases as with
      | nil =>
        obtain ⟨rfl,rfl⟩ := List.cons.inj h
        have hnat : (UInt8.ofNat c.toNat).toNat = c.toNat := by
          rw [UInt8.toNat_ofNat']
          omega
        exact ⟨[],cs,c,rfl,rfl,rfl,hnat.symm⟩
      | cons a as =>
        obtain ⟨rfl,hrest⟩ := List.cons.inj h
        obtain ⟨before,after,d,rfl,rfl,hafter,hd⟩ := ih hrest
        refine ⟨c :: before,after,d,rfl,?_,hafter,hd⟩
        rw [utf8, List.flatMap_cons, henc]
        rfl
    · -- the byte is none of a longer character, so that character stands in front of it
      rcases List.append_eq_append_iff.mp h with ⟨as',rfl,hrest⟩ | ⟨bs',henc',hrest⟩
      · obtain ⟨before,after,d,rfl,rfl,hafter,hd⟩ := ih hrest
        refine ⟨c :: before,after,d,rfl,?_,hafter,hd⟩
        rw [utf8, List.flatMap_cons]
        rfl
      · cases bs' with
        | nil =>
          rw [List.append_nil] at henc'
          obtain ⟨before,after,d,rfl,hbefore,hafter,hd⟩ := @ih [] hrest.symm
          refine ⟨c :: before,after,d,rfl,?_,hafter,hd⟩
          rw [utf8, List.flatMap_cons, henc']
          change _ ++ utf8 before = _
          rw [hbefore, List.append_nil]
        | cons b' bs' =>
          obtain ⟨rfl,-⟩ := List.cons.inj hrest
          have hbig := henc b (by rw [henc']; simp)
          omega

/-- A text in ASCII comes back from its bytes, whatever stands behind it. -/
theorem fromUtf8Lossy_ascii {text : List Char} (h : ∀ c ∈ text, c.toNat < 128) (bs : Bytes) :
    fromUtf8Lossy (utf8 text ++ bs) = text ++ fromUtf8Lossy bs := by
  induction text with
  | nil => rfl
  | cons c cs ih =>
    obtain ⟨hc,hcs⟩ := List.forall_mem_cons.mp h
    have hnat : (UInt8.ofNat c.toNat).toNat = c.toNat := by
      rw [UInt8.toNat_ofNat']
      omega
    have hlt : UInt8.ofNat c.toNat < 0x80 := UInt8.lt_iff_toNat_lt.mpr (by rw [hnat]; exact hc)
    rw [utf8, List.flatMap_cons, utf8EncodeChar_ascii hc, List.append_assoc, List.singleton_append,
      fromUtf8Lossy.eq_def]
    dsimp only
    rw [if_pos hlt, hnat, Char.ofNat_toNat]
    exact congrArg (List.cons c) (ih hcs)

theorem mem_utf8 {text : List Char} {b : UInt8} (hb : b.toNat < 128) (h : b ∈ utf8 text) :
    ∃ c ∈ text, c.toNat = b.toNat := by
  obtain ⟨as,bs,hsplit⟩ := List.append_of_mem h
  obtain ⟨before,after,c,rfl,-,-,hc⟩ := utf8_split hb hsplit
  exact ⟨c,by simp,hc⟩

theorem notMem_utf8 {text : List Char} {c : Char} (hc : c.toNat < 128) (h : c ∉ text) :
    UInt8.ofNat c.toNat ∉ utf8 text := by
  intro hmem
  have hnat : (UInt8.ofNat c.toNat).toNat = c.toNat := by
    rw [UInt8.toNat_ofNat']
    omega
  obtain ⟨d,hd,heq⟩ := mem_utf8 (by omega) hmem
  rw [hnat] at heq
  exact h (Char.toNat_inj.mp heq ▸ hd)

/-- The bytes of a line stand for a text of their own. -/
theorem utf8_split_crlf {text : List Char} {line rest : Bytes}
    (h : utf8 text = line ++ 13 :: 10 :: rest) :
    ∃ before after, text = before ++ '\r' :: '\n' :: after ∧ utf8 before = line ∧
      utf8 after = rest := by
  obtain ⟨before,after,c,rfl,hbefore,hafter,hc⟩ := utf8_split (by decide) h
  obtain ⟨empty,after',d,rfl,hempty,hafter',hd⟩ := @utf8_split _ [] _ _ (by decide) hafter
  obtain rfl : c = '\r' := Char.toNat_inj.mp hc
  obtain rfl : d = '\n' := Char.toNat_inj.mp hd
  obtain rfl : empty = [] := utf8_injective hempty
  exact ⟨before,after',rfl,hbefore,hafter'⟩

/-! ## Separators -/

/-- The first separator. -/
theorem until_eq {α : Type*} {sep : α} {s t x y : List α} (hs : sep ∉ s) (ht : sep ∉ t)
    (h : s ++ sep :: x = t ++ sep :: y) : s = t ∧ x = y := by
  induction s generalizing t with
  | nil =>
    cases t with
    | nil => exact ⟨rfl, (List.cons.inj h).2⟩
    | cons c t => exact absurd ((List.cons.inj h).1 ▸ List.mem_cons_self) ht
  | cons c s ih =>
    cases t with
    | nil => exact absurd ((List.cons.inj h).1 ▸ List.mem_cons_self) hs
    | cons d t =>
      obtain ⟨hhead,htail⟩ := List.cons.inj h
      obtain ⟨heq,hrest⟩ := ih (List.not_mem_of_not_mem_cons hs)
        (List.not_mem_of_not_mem_cons ht) htail
      exact ⟨hhead ▸ heq ▸ rfl, hrest⟩

/-- The last separator, seen from the end. -/
theorem after_eq {α : Type*} {sep : α} {s t x y : List α} (hx : sep ∉ x) (hy : sep ∉ y)
    (h : s ++ sep :: x = t ++ sep :: y) : s = t ∧ x = y := by
  have hreverse : x.reverse ++ sep :: s.reverse = y.reverse ++ sep :: t.reverse := by
    simpa using congrArg List.reverse h
  obtain ⟨hback,hfront⟩ := until_eq (by simpa using hx) (by simpa using hy) hreverse
  exact ⟨List.reverse_inj.mp hfront, List.reverse_inj.mp hback⟩

/-! ## Splitting -/

theorem splitCrlf_line {line : List Char} (h : '\r' ∉ line) (rest : List Char) :
    splitCrlf (line ++ '\r' :: '\n' :: rest) = line :: splitCrlf rest := by
  induction line with
  | nil => rfl
  | cons c cs ih =>
    obtain ⟨hc,hcs⟩ := List.ne_and_not_mem_of_not_mem_cons h
    have hcons : splitCrlf (c :: (cs ++ '\r' :: '\n' :: rest)) =
        match splitCrlf (cs ++ '\r' :: '\n' :: rest) with
        | part :: parts => (c :: part) :: parts
        | [] => [[c]] := by
      rw [splitCrlf]
      intro cs' hr
      exact absurd hr.symm hc
    rw [List.cons_append, hcons, ih hcs]

theorem splitOnce_first {sep : Char} {before : List Char} (h : sep ∉ before) (after : List Char) :
    splitOnce sep (before ++ sep :: after) = some (before, after) := by
  induction before with
  | nil => simp [splitOnce]
  | cons c cs ih =>
    obtain ⟨hc,hcs⟩ := List.ne_and_not_mem_of_not_mem_cons h
    rw [List.cons_append, splitOnce, if_neg hc.symm, ih hcs]
    rfl

theorem splitOnce_none {sep : Char} {text : List Char} (h : sep ∉ text) : splitOnce sep text = none := by
  induction text with
  | nil => rfl
  | cons c cs ih =>
    obtain ⟨hc,hcs⟩ := List.ne_and_not_mem_of_not_mem_cons h
    rw [splitOnce, if_neg hc.symm, ih hcs]
    rfl

theorem rsplitOnce_last {sep : Char} {after : List Char} (h : sep ∉ after) (before : List Char) :
    rsplitOnce sep (before ++ sep :: after) = some (before, after) := by
  have hrev : (before ++ sep :: after).reverse = after.reverse ++ sep :: before.reverse := by simp
  rw [rsplitOnce, hrev, splitOnce_first (by simpa using h)]
  simp

theorem rsplitOnce_none {sep : Char} {text : List Char} (h : sep ∉ text) : rsplitOnce sep text = none := by
  rw [rsplitOnce, splitOnce_none (by simpa using h)]
  rfl

theorem stripPrefix_append (pattern rest : List Char) :
    stripPrefix pattern (pattern ++ rest) = some rest := by
  rw [stripPrefix, if_pos (List.isPrefixOf_iff_prefix.mpr (List.prefix_append _ _)), List.drop_left]

theorem stripPrefix_none {pattern text : List Char} (h : ¬ pattern <+: text) :
    stripPrefix pattern text = none :=
  if_neg fun hpre => h (List.isPrefixOf_iff_prefix.mp hpre)

theorem replaceFirst_front (pattern replacement rest : List Char) :
    replaceFirst pattern replacement (pattern ++ rest) = replacement ++ rest := by
  have hfront : pattern.isPrefixOf (pattern ++ rest) = true :=
    List.isPrefixOf_iff_prefix.mpr (List.prefix_append _ _)
  have hdrop : (pattern ++ rest).drop pattern.length = rest := List.drop_left
  cases htext : pattern ++ rest with
  | nil =>
    obtain ⟨rfl,rfl⟩ := List.append_eq_nil_iff.mp htext
    simp [replaceFirst]
  | cons c cs =>
    rw [htext] at hfront hdrop
    rw [replaceFirst, if_pos hfront, hdrop]

/-! ## Blanks at the ends -/

/-- Text that neither begins nor ends with white space. -/
def Trimmed (text : List Char) : Prop :=
  (∀ c ∈ text.head?, isWhitespace c = false) ∧ ∀ c ∈ text.getLast?, isWhitespace c = false

theorem head_dropWhile (text : List Char) :
    ∀ c ∈ (text.dropWhile isWhitespace).head?, isWhitespace c = false := by
  intro c hc
  have hnot := List.head?_dropWhile_not isWhitespace text
  rw [Option.mem_def.mp hc] at hnot
  exact hnot

/-- What `trim` takes off, and what it leaves. -/
theorem trim_parts (text : List Char) :
    ∃ before after, text = before ++ (trim text ++ after) ∧ (∀ c ∈ before, isWhitespace c = true) ∧
      (∀ c ∈ after, isWhitespace c = true) ∧ Trimmed (trim text) := by
  have hmiddle : text.dropWhile isWhitespace =
      trim text ++ ((text.dropWhile isWhitespace).reverse.takeWhile isWhitespace).reverse := by
    rw [trim, ← List.reverse_append, List.takeWhile_append_dropWhile, List.reverse_reverse]
  refine ⟨text.takeWhile isWhitespace,
    ((text.dropWhile isWhitespace).reverse.takeWhile isWhitespace).reverse,?_,fun c hc => List.mem_takeWhile_imp hc,fun c hc =>
    List.mem_takeWhile_imp (List.mem_reverse.mp hc),?_,?_⟩
  · rw [← hmiddle, List.takeWhile_append_dropWhile]
  · intro c hc
    refine head_dropWhile text c ?_
    rw [hmiddle, List.head?_append, Option.mem_def.mp hc]
    rfl
  · intro c hc
    rw [trim, List.getLast?_reverse] at hc
    exact head_dropWhile _ c hc

theorem dropWhile_blanks {before text : List Char} (hbefore : ∀ c ∈ before, isWhitespace c = true)
    (hhead : ∀ c ∈ text.head?, isWhitespace c = false) :
    (before ++ text).dropWhile isWhitespace = text := by
  rw [List.dropWhile_append_of_pos hbefore]
  cases text with
  | nil => rfl
  | cons c cs =>
    rw [List.dropWhile_cons_of_neg]
    rw [hhead c rfl]
    exact Bool.false_ne_true

/-- Blanks around a trimmed text are taken off. -/
theorem trim_between {before text after : List Char} (htext : Trimmed text)
    (hbefore : ∀ c ∈ before, isWhitespace c = true) (hafter : ∀ c ∈ after, isWhitespace c = true) :
    trim (before ++ (text ++ after)) = text := by
  cases text with
  | nil =>
    have hall : ∀ c ∈ before ++ after, isWhitespace c = true := by
      intro c hc
      cases List.mem_append.mp hc with
      | inl hfront => exact hbefore c hfront
      | inr hback => exact hafter c hback
    rw [List.nil_append, trim, List.dropWhile_eq_nil_iff.mpr hall]
    rfl
  | cons c cs =>
    have hback : ∀ d ∈ after.reverse, isWhitespace d = true := fun d hd =>
      hafter d (List.mem_reverse.mp hd)
    have hlast : ∀ d ∈ (c :: cs).reverse.head?, isWhitespace d = false := by
      intro d hd
      rw [List.head?_reverse] at hd
      exact htext.2 d hd
    have hfront : ∀ d ∈ (c :: cs ++ after).head?, isWhitespace d = false := htext.1
    rw [trim, dropWhile_blanks hbefore hfront, List.reverse_append, dropWhile_blanks hback hlast,
      List.reverse_reverse]

theorem trim_of_trimmed {text : List Char} (h : Trimmed text) : trim text = text := by
  have hbetween := @trim_between [] text [] h (by simp) (by simp)
  rwa [List.append_nil] at hbetween

/-- Text between blanks and a blank end. -/
theorem trim_append {text blanks : List Char} (htext : ∀ c ∈ text, isWhitespace c = false)
    (hblanks : ∀ c ∈ blanks, isWhitespace c = true) : trim (text ++ blanks) = text := by
  refine @trim_between [] text blanks ⟨fun c hc => ?_,fun c hc => ?_⟩ (by simp) hblanks
  · exact htext c (List.mem_of_mem_head? hc)
  · exact htext c (List.mem_of_getLast? hc)

/-! ## Lengths -/

theorem fromUtf8Lossy_length_le (bytes : Bytes) : (fromUtf8Lossy bytes).length ≤ bytes.length := by
  fun_induction fromUtf8Lossy bytes
  all_goals simp only [List.length_cons, List.length_nil] at *
  all_goals omega

theorem splitOn_length_le (c : Char) (text : List Char) : (text.splitOn c).length ≤ text.length + 1 := by
  induction text with
  | nil => simp
  | cons d text ih =>
    rw [List.splitOn_cons_eq_if_modifyHead]
    split
    · simpa using ih
    · rw [List.length_modifyHead, List.length_cons]
      omega

theorem mem_splitOn_length_le {c : Char} {text piece : List Char} (h : piece ∈ text.splitOn c) :
    piece.length ≤ text.length := by
  induction text generalizing piece with
  | nil => simp_all
  | cons d text ih =>
    rw [List.splitOn_cons_eq_if_modifyHead] at h
    rw [List.length_cons]
    split at h
    case isTrue =>
      cases List.mem_cons.mp h with
      | inl hnil => simp [hnil]
      | inr hmem => exact Nat.le_succ_of_le (ih hmem)
    case isFalse =>
      obtain ⟨first,pieces,hsplit⟩ := List.exists_cons_of_ne_nil (List.splitOn_ne_nil c text)
      rw [hsplit, List.modifyHead_cons] at h
      cases List.mem_cons.mp h with
      | inl hfirst =>
        rw [hfirst, List.length_cons]
        exact Nat.succ_le_succ (ih (hsplit ▸ List.mem_cons_self))
      | inr hmem => exact Nat.le_succ_of_le (ih (hsplit ▸ List.mem_cons_of_mem first hmem))

theorem mem_lines_length_le {text line : List Char} (h : line ∈ lines text) :
    line.length ≤ text.length := by
  rw [lines, List.mem_append, List.mem_map] at h
  cases h with
  | inl hfront =>
    obtain ⟨piece,hmem,rfl⟩ := hfront
    have hpiece := mem_splitOn_length_le (List.dropLast_subset _ hmem)
    rw [stripCarriageReturn]
    split
    · rw [List.length_dropLast]
      omega
    · exact hpiece
  | inr hlast =>
    split at hlast
    case isTrue => exact absurd hlast List.not_mem_nil
    case isFalse =>
      rw [List.mem_singleton.mp hlast]
      obtain ⟨first,pieces,hsplit⟩ := List.exists_cons_of_ne_nil (List.splitOn_ne_nil '\n' text)
      have hmem : (text.splitOn '\n').getLastD [] ∈ text.splitOn '\n' := by
        rw [hsplit]
        exact List.getLast_mem (List.cons_ne_nil first pieces)
      exact mem_splitOn_length_le hmem

theorem splitOnce_some {c : Char} {text before after : List Char}
    (h : splitOnce c text = some (before, after)) : text = before ++ c :: after := by
  induction text generalizing before with
  | nil => cases h
  | cons d text ih =>
    rw [splitOnce] at h
    split at h
    case isTrue hd =>
      cases h
      rw [hd]
      rfl
    case isFalse =>
      obtain ⟨r,hr,heq⟩ := Option.map_eq_some_iff.mp h
      cases heq
      rw [List.cons_append, ← ih hr]

theorem splitOnce_length {c : Char} {text before after : List Char}
    (h : splitOnce c text = some (before, after)) : before.length + 1 + after.length = text.length := by
  rw [splitOnce_some h, List.length_append, List.length_cons]
  omega

theorem trim_length_le (text : List Char) : (trim text).length ≤ text.length := by
  have hfront := (List.dropWhile_suffix isWhitespace (l := text)).length_le
  have hback := (List.dropWhile_suffix isWhitespace (l := (text.dropWhile isWhitespace).reverse)).length_le
  rw [List.length_reverse] at hback
  rw [trim, List.length_reverse]
  omega

end AtlasKernel.Lib
