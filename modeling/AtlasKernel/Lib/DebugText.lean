import AtlasKernel.Lib.Text
import Mathlib.Data.List.Basic
import Mathlib.Data.Nat.Digits.Defs
import Std.Data.String.ToInt

/-! Texts that can be read back: what `Debug` prints, and values between separators. Two
texts with such beginnings can only be equal where their values are. -/
namespace AtlasKernel.Lib
variable {α : Type*}

/-! ## Values that end by themselves -/

def SelfDelimiting (print : α → List Char) : Prop :=
  ∀ a b x y, print a ++ x = print b ++ y → a = b ∧ x = y

/-- The `Debug` of an `Option`. -/
def debugOption (debug : α → List Char) : Option α → List Char
  | none => "None".toList
  | some a => "Some(".toList ++ (debug a ++ [')'])

theorem debugOption_some (debug : α → List Char) (a : α) (x : List Char) :
    debugOption debug (some a) ++ x = "Some(".toList ++ (debug a ++ ')' :: x) := by
  change "Some(".toList ++ (debug a ++ [')']) ++ x = _
  rw [List.append_assoc, List.append_assoc, List.singleton_append]

theorem SelfDelimiting.option {debug : α → List Char} (h : SelfDelimiting debug) :
    SelfDelimiting (debugOption debug) := by
  intro a b x y heq
  cases a with
  | none =>
    cases b with
    | none => exact ⟨rfl, List.append_cancel_left heq⟩
    | some b => exact absurd (List.cons.inj heq).1 (by decide)
  | some a =>
    cases b with
    | none => exact absurd (List.cons.inj heq).1 (by decide)
    | some b =>
      rw [debugOption_some, debugOption_some] at heq
      obtain ⟨hvalue,hrest⟩ := h a b _ _ (List.append_cancel_left heq)
      exact ⟨congrArg some hvalue, (List.cons.inj hrest).2⟩

/-! ## Strings -/

/-- The character behind the backslash, for those that have an escape of their own. -/
def simpleEscape : Char → Option Char
  | '\x00' => some '0'
  | '\t' => some 't'
  | '\r' => some 'r'
  | '\n' => some 'n'
  | '\\' => some '\\'
  | '\"' => some '\"'
  | _ => none

theorem simpleEscape_inj {c d k : Char} (hc : simpleEscape c = some k)
    (hd : simpleEscape d = some k) : c = d ∧ k ≠ 'u' := by
  unfold simpleEscape at hc hd
  split at hc <;> split at hd <;> simp_all <;> grind

def hexText (n : Nat) : List Char := (Nat.digits 16 n).reverse.map hexDigit

def hexValue (c : Char) : Nat := "0123456789abcdef".toList.idxOf c

theorem hexDigit_table : ∀ d < 16, hexValue (hexDigit d) = d ∧ hexDigit d ≠ '\x7d' := by
  decide +kernel

theorem hex_inj {as bs : Bytes} (h : hex as = hex bs) : as = bs := by
  have hdigit : ∀ n < 16, ∀ m < 16, hexDigit n = hexDigit m → n = m := by decide
  induction as generalizing bs with
  | nil =>
    cases bs with
    | nil => rfl
    | cons b bs => simp [hex] at h
  | cons a as ih =>
    cases bs with
    | nil => simp [hex] at h
    | cons b bs =>
      obtain ⟨hhigh,hrest⟩ := List.cons.inj h
      obtain ⟨hlow,htail⟩ := List.cons.inj hrest
      have ha := a.toNat_lt
      have hb := b.toNat_lt
      have hdiv := hdigit _ (by omega) _ (by omega) hhigh
      have hmod := hdigit _ (by omega) _ (by omega) hlow
      have hnat : a.toNat = b.toNat := by omega
      rw [UInt8.toNat_inj.mp hnat, ih htail]

theorem digits_sixteen_lt (n : Nat) : ∀ d ∈ (Nat.digits 16 n).reverse, d < 16 := fun _ hd =>
  Nat.digits_lt_base (by decide) (List.mem_reverse.mp hd)

theorem hexText_values (n : Nat) : (hexText n).map hexValue = (Nat.digits 16 n).reverse := by
  rw [hexText, List.map_map]
  conv_rhs => rw [← List.map_id (Nat.digits 16 n).reverse]
  exact List.map_congr_left fun d hd => (hexDigit_table d (digits_sixteen_lt n d hd)).1

theorem hexText_inj {m n : Nat} (h : hexText m = hexText n) : m = n := by
  have hdigits := congrArg (List.map hexValue) h
  rw [hexText_values, hexText_values] at hdigits
  exact Nat.digits.injective 16 (List.reverse_injective hdigits)

theorem brace_not_mem_hexText (n : Nat) : '\x7d' ∉ hexText n := by
  intro h
  obtain ⟨d,hd,heq⟩ := List.mem_map.mp h
  exact (hexDigit_table d (digits_sixteen_lt n d hd)).2 heq

/-- `char::escape_debug` within a string; `unicode` tells the other characters that are not
printed as they are. -/
def escapeDebug (unicode : Char → Bool) (c : Char) : List Char :=
  match simpleEscape c with
  | some k => ['\\', k]
  | none => if unicode c then "\\u\x7b".toList ++ hexText c.toNat ++ ['\x7d'] else [c]

/-- The `Debug` of a string. -/
def debugStr (unicode : Char → Bool) (s : String) : List Char :=
  '\"' :: (s.toList.flatMap (escapeDebug unicode) ++ ['\"'])

variable {unicode : Char → Bool}

/-- How an escape begins: the character itself, a backslash and `u`, or a backslash and the
character of an escape of its own. -/
theorem escapeDebug_cases (c : Char) :
    (escapeDebug unicode c = [c] ∧ c ≠ '\\' ∧ c ≠ '\"') ∨
      escapeDebug unicode c = '\\' :: 'u' :: '\x7b' :: (hexText c.toNat ++ ['\x7d']) ∨
      ∃ k, simpleEscape c = some k ∧ escapeDebug unicode c = ['\\', k] := by
  rw [escapeDebug]
  cases hc : simpleEscape c with
  | some k => exact .inr (.inr ⟨k, rfl, rfl⟩)
  | none =>
    by_cases hu : unicode c
    · exact .inr (.inl (by simp [hu]))
    · refine .inl ⟨by simp [hu], ?_, ?_⟩
      · rintro rfl
        exact absurd hc (by decide)
      · rintro rfl
        exact absurd hc (by decide)

theorem escapeDebug_selfDelimiting : SelfDelimiting (escapeDebug unicode) := by
  intro c d x y h
  obtain ⟨hc,hslash,-⟩ | hc | ⟨k,hk,hc⟩ := @escapeDebug_cases unicode c <;>
    obtain ⟨hd,hslash',-⟩ | hd | ⟨k',hk',hd⟩ := @escapeDebug_cases unicode d <;> rw [hc, hd] at h
  case inl.inl => exact List.cons.inj h
  case inl.inr.inl => exact absurd (List.cons.inj h).1 hslash
  case inl.inr.inr => exact absurd (List.cons.inj h).1 hslash
  case inr.inl.inl => exact absurd (List.cons.inj h).1.symm hslash'
  case inr.inr.inl => exact absurd (List.cons.inj h).1.symm hslash'
  case inr.inl.inr.inl =>
    have hcode : hexText c.toNat ++ '\x7d' :: x = hexText d.toNat ++ '\x7d' :: y := by
      simpa using h
    obtain ⟨hhex,hrest⟩ := until_eq (brace_not_mem_hexText _) (brace_not_mem_hexText _) hcode
    exact ⟨Char.toNat_inj.mp (hexText_inj hhex), hrest⟩
  case inr.inl.inr.inr =>
    have hu : 'u' = k' := (List.cons.inj (List.cons.inj h).2).1
    exact absurd hu.symm (simpleEscape_inj hk' hk').2
  case inr.inr.inr.inl =>
    have hu : k = 'u' := (List.cons.inj (List.cons.inj h).2).1
    exact absurd hu (simpleEscape_inj hk hk).2
  case inr.inr.inr.inr =>
    obtain ⟨hkey,hrest⟩ := List.cons.inj (List.cons.inj h).2
    exact ⟨(simpleEscape_inj hk (hkey ▸ hk')).1, hrest⟩

theorem escapeDebug_ne_quote (c : Char) (x y : List Char) :
    escapeDebug unicode c ++ x ≠ '\"' :: y := by
  intro h
  obtain ⟨hc,-,hquote⟩ | hc | ⟨k,-,hc⟩ := @escapeDebug_cases unicode c <;> rw [hc] at h
  · exact hquote (List.cons.inj h).1
  · exact absurd (List.cons.inj h).1 (by decide)
  · exact absurd (List.cons.inj h).1 (by decide)

/-- The first quote that is not escaped ends the string. -/
theorem escaped_until_quote {s t x y : List Char}
    (h : s.flatMap (escapeDebug unicode) ++ '\"' :: x =
      t.flatMap (escapeDebug unicode) ++ '\"' :: y) : s = t ∧ x = y := by
  induction s generalizing t with
  | nil =>
    cases t with
    | nil => exact ⟨rfl, (List.cons.inj h).2⟩
    | cons d t =>
      rw [List.flatMap_cons, List.append_assoc] at h
      exact absurd h.symm (escapeDebug_ne_quote d _ _)
  | cons c s ih =>
    cases t with
    | nil =>
      rw [List.flatMap_cons, List.append_assoc] at h
      exact absurd h (escapeDebug_ne_quote c _ _)
    | cons d t =>
      rw [List.flatMap_cons, List.flatMap_cons, List.append_assoc, List.append_assoc] at h
      obtain ⟨hhead,htail⟩ := escapeDebug_selfDelimiting c d _ _ h
      obtain ⟨heq,hrest⟩ := ih htail
      exact ⟨hhead ▸ heq ▸ rfl, hrest⟩

theorem debugStr_selfDelimiting : SelfDelimiting (debugStr unicode) := by
  intro s t x y h
  rw [debugStr, debugStr, List.cons_append, List.cons_append, List.append_assoc,
    List.append_assoc] at h
  obtain ⟨heq,hrest⟩ := escaped_until_quote (List.cons.inj h).2
  exact ⟨String.toList_inj.mp heq, hrest⟩

/-! ## Numbers -/

theorem not_mem_natText {sep : Char} (hsep : sep.isDigit = false) (n : Nat) :
    sep ∉ (toString n).toList := by
  intro h
  rw [Nat.toString_eq_repr, Nat.toList_repr] at h
  have hdigit := Nat.isDigit_of_mem_toDigits (by decide) (by decide) h
  exact absurd (hdigit.symm.trans hsep) (by decide)

theorem not_mem_intText {sep : Char} (hsep : sep.isDigit = false) (hminus : sep ≠ '-') (n : Int) :
    sep ∉ (toString n).toList := by
  have hnat (k : Nat) : sep ∉ k.repr.toList := Nat.toString_eq_repr ▸ not_mem_natText hsep k
  rw [Int.toString_eq_repr, Int.repr_eq_if]
  split
  · exact hnat n.toNat
  · rw [String.toList_append, List.mem_append, not_or]
    exact ⟨fun h => hminus (List.mem_singleton.mp h), hnat _⟩

theorem nat_until {sep : Char} (hsep : sep.isDigit = false) {m n : Nat} {x y : List Char}
    (h : (toString m).toList ++ sep :: x = (toString n).toList ++ sep :: y) :
    m = n ∧ x = y := by
  obtain ⟨htext,hrest⟩ := until_eq (not_mem_natText hsep m) (not_mem_natText hsep n) h
  exact ⟨Nat.repr_injective (String.toList_inj.mp htext), hrest⟩

theorem int_until {sep : Char} (hsep : sep.isDigit = false) (hminus : sep ≠ '-') {m n : Int}
    {x y : List Char} (h : (toString m).toList ++ sep :: x = (toString n).toList ++ sep :: y) :
    m = n ∧ x = y := by
  obtain ⟨htext,hrest⟩ := until_eq (not_mem_intText hsep hminus m)
    (not_mem_intText hsep hminus n) h
  exact ⟨Int.repr_injective (String.toList_inj.mp htext), hrest⟩

/-! ## Structures -/

def debugFields : List (String × List Char) → List Char
  | [] => []
  | [(name, value)] => ' ' :: (name.toList ++ ':' :: ' ' :: (value ++ [' ', '\x7d']))
  | (name, value) :: field :: fields =>
    ' ' :: (name.toList ++ ':' :: ' ' :: (value ++ ',' :: debugFields (field :: fields)))

def debugStruct (name : String) (fields : List (String × List Char)) : List Char :=
  name.toList ++ ' ' :: '\x7b' :: debugFields fields

theorem debugStruct_fields {name : String} {fields fields' : List (String × List Char)}
    {x y : List Char} (h : debugStruct name fields ++ x = debugStruct name fields' ++ y) :
    debugFields fields ++ x = debugFields fields' ++ y := by
  rw [debugStruct, debugStruct, List.append_assoc, List.append_assoc] at h
  exact (List.cons.inj (List.cons.inj (List.append_cancel_left h)).2).2

theorem debugFields_value {name : String} {value value' : List Char} {field field' : String × List Char}
    {fields fields' : List (String × List Char)} {x y : List Char}
    (h : debugFields ((name, value) :: field :: fields) ++ x =
      debugFields ((name, value') :: field' :: fields') ++ y) :
    value ++ ',' :: (debugFields (field :: fields) ++ x) =
      value' ++ ',' :: (debugFields (field' :: fields') ++ y) := by
  rw [debugFields, debugFields, List.cons_append, List.cons_append, List.append_assoc,
    List.append_assoc] at h
  have hvalue := (List.cons.inj (List.cons.inj (List.append_cancel_left
    (List.cons.inj h).2)).2).2
  simpa using hvalue

theorem debugFields_last {name : String} {value value' x y : List Char}
    (h : debugFields [(name, value)] ++ x = debugFields [(name, value')] ++ y) :
    value ++ ' ' :: '\x7d' :: x = value' ++ ' ' :: '\x7d' :: y := by
  rw [debugFields, debugFields, List.cons_append, List.cons_append, List.append_assoc,
    List.append_assoc] at h
  have hvalue := (List.cons.inj (List.cons.inj (List.append_cancel_left
    (List.cons.inj h).2)).2).2
  simpa using hvalue

end AtlasKernel.Lib
