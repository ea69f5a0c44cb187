import AtlasKernel.Lib.AddressText

/-! The text of an address means the same in any case of letters: a parser that only looks at
digits and separators commutes with lowering the letters of its input. -/
namespace AtlasKernel.Lib
variable {β : Type*} {input : Bytes}

/-- `u8::to_ascii_lowercase` -/
def lowerByte (b : UInt8) : UInt8 := if 0x41 ≤ b ∧ b ≤ 0x5a then b + 0x20 else b

theorem lowerByte_toNat (b : UInt8) : (lowerByte b).toNat =
    if 0x41 ≤ b.toNat ∧ b.toNat ≤ 0x5a then b.toNat + 0x20 else b.toNat := by
  by_cases h : 0x41 ≤ b ∧ b ≤ 0x5a
  · have hrange : 0x41 ≤ b.toNat ∧ b.toNat ≤ 0x5a := h
    have hstep : (0x20 : UInt8).toNat = 0x20 := rfl
    rw [lowerByte, if_pos h, if_pos hrange, UInt8.toNat_add, hstep, Nat.mod_eq_of_lt (by omega)]
  · have hrange : ¬ (0x41 ≤ b.toNat ∧ b.toNat ≤ 0x5a) := h
    rw [lowerByte, if_neg h, if_neg hrange]

theorem lowerByte_eq_iff {b c : UInt8} (hc : c < 0x41) : lowerByte b = c ↔ b = c := by
  have hlow : c.toNat < 0x41 := hc
  rw [← UInt8.toNat_inj, ← UInt8.toNat_inj, lowerByte_toNat]
  split_ifs <;> omega

theorem toDigit_eq (radix : Nat) (b : UInt8) : toDigit radix b =
    (if 0x30 ≤ b.toNat ∧ b.toNat ≤ 0x39 then some (b.toNat - 0x30)
      else if 0x61 ≤ b.toNat ∧ b.toNat ≤ 0x7a then some (b.toNat - 0x61 + 10)
      else if 0x41 ≤ b.toNat ∧ b.toNat ≤ 0x5a then some (b.toNat - 0x41 + 10)
      else none).filter (· < radix) := rfl

theorem toDigit_lowerByte (radix : Nat) (b : UInt8) :
    toDigit radix (lowerByte b) = toDigit radix b := by
  rw [toDigit_eq, toDigit_eq, lowerByte_toNat]
  congr 1
  split_ifs <;> first | (exfalso; omega) | rfl

/-- The parser does not see the case of letters: it takes the same, and leaves the same. -/
def Caseless (parser : Bytes → Option (β × Bytes)) : Prop :=
  ∀ input, parser (input.map lowerByte) = (parser input).map fun r => (r.1, r.2.map lowerByte)

theorem readDigits_lower (radix maxDigits bound result digitCount : Nat) :
    readDigits radix maxDigits bound (input.map lowerByte) result digitCount =
      (readDigits radix maxDigits bound input result digitCount).map
        fun r => (r.1, r.2.1, r.2.2.map lowerByte) := by
  induction input generalizing result digitCount with
  | nil => rfl
  | cons b bs ih =>
    rw [List.map_cons, readDigits, readDigits, toDigit_lowerByte]
    cases toDigit radix b with
    | none => rfl
    | some digit =>
      dsimp only
      split_ifs
      · rfl
      · rfl
      · exact ih _ _

theorem head_lower_zero : (input.map lowerByte).head? = some 0x30 ↔ input.head? = some 0x30 := by
  cases input with
  | nil => rfl
  | cons b bs =>
    rw [List.map_cons, List.head?_cons, List.head?_cons, Option.some_inj, Option.some_inj,
      lowerByte_eq_iff (by decide)]

theorem readNumber_caseless (radix maxDigits bound : Nat) (allowZeroPrefix : Bool) :
    Caseless (readNumber radix maxDigits bound allowZeroPrefix) := by
  intro input
  rw [readNumber, readNumber, readDigits_lower]
  cases readDigits radix maxDigits bound input 0 0 with
  | none => rfl
  | some r =>
    simp only [Option.map_some, head_lower_zero]
    split_ifs <;> rfl

theorem readGivenChar_lower {c : UInt8} (hc : c < 0x41) :
    readGivenChar c (input.map lowerByte) = (readGivenChar c input).map (List.map lowerByte) := by
  cases input with
  | nil => rfl
  | cons b bs =>
    rw [List.map_cons, readGivenChar, readGivenChar]
    by_cases hb : b = c
    · rw [if_pos hb, if_pos ((lowerByte_eq_iff hc).mpr hb)]
      rfl
    · rw [if_neg hb, if_neg (mt (lowerByte_eq_iff hc).mp hb)]
      rfl

theorem Caseless.readSeparator {sep : UInt8} (hsep : sep < 0x41) (index : Nat)
    {inner : Bytes → Option (β × Bytes)} (h : Caseless inner) :
    Caseless (readSeparator sep index inner) := by
  intro input
  rw [Lib.readSeparator, Lib.readSeparator]
  split_ifs
  · rw [readGivenChar_lower hsep]
    cases readGivenChar sep input with
    | none => rfl
    | some input => exact h input
  · exact h input

theorem readIpv4Addr_caseless : Caseless readIpv4Addr := by
  have hoctet : ∀ index, Caseless (readSeparator 0x2e index (readNumber 10 3 255 false)) :=
    fun index => (readNumber_caseless 10 3 255 false).readSeparator (by decide) index
  intro input
  simp only [readIpv4Addr, Option.bind_eq_bind, Option.pure_def]
  rw [hoctet 0]
  cases readSeparator 0x2e 0 (readNumber 10 3 255 false) input with
  | none => rfl
  | some a =>
    simp only [Option.map_some, Option.bind_some]
    rw [hoctet 1]
    cases readSeparator 0x2e 1 (readNumber 10 3 255 false) a.2 with
    | none => rfl
    | some b =>
      simp only [Option.map_some, Option.bind_some]
      rw [hoctet 2]
      cases readSeparator 0x2e 2 (readNumber 10 3 255 false) b.2 with
      | none => rfl
      | some c =>
        simp only [Option.map_some, Option.bind_some]
        rw [hoctet 3]
        cases readSeparator 0x2e 3 (readNumber 10 3 255 false) c.2 <;> rfl

theorem readGroups_lower (index left : Nat) (input : Bytes) :
    readGroups index left (input.map lowerByte) =
      ((readGroups index left input).1, (readGroups index left input).2.1,
        (readGroups index left input).2.2.map lowerByte) := by
  induction left generalizing index input with
  | zero => rfl
  | succ left ih =>
    have hcolon : (0x3a : UInt8) < 0x41 := by decide
    have hipv4 := readIpv4Addr_caseless.readSeparator hcolon index input
    have hgroup := (readNumber_caseless 16 4 65535 true).readSeparator hcolon index input
    have hembedded : (if 0 < left then readSeparator 0x3a index readIpv4Addr (input.map lowerByte)
        else none) =
        (if 0 < left then readSeparator 0x3a index readIpv4Addr input else none).map
          fun r => (r.1, r.2.map lowerByte) := by
      split_ifs
      · exact hipv4
      · rfl
    rw [readGroups, readGroups, hembedded]
    cases if 0 < left then readSeparator 0x3a index readIpv4Addr input else none with
    | some r => rfl
    | none =>
      rw [Option.map_none, hgroup]
      cases readSeparator 0x3a index (readNumber 16 4 65535 true) input with
      | none => rfl
      | some r =>
        dsimp only [Option.map_some]
        rw [ih]

theorem readIpv6Addr_caseless : Caseless readIpv6Addr := by
  intro input
  simp only [readIpv6Addr, readGroups_lower, Option.bind_eq_bind, Option.pure_def]
  split_ifs
  · rfl
  · rfl
  · rw [readGivenChar_lower (by decide)]
    cases readGivenChar 0x3a (readGroups 0 8 input).2.2 with
    | none => rfl
    | some input =>
      simp only [Option.map_some, Option.bind_some]
      rw [readGivenChar_lower (by decide)]
      cases readGivenChar 0x3a input with
      | none => rfl
      | some input =>
        simp only [Option.map_some, Option.bind_some, readGroups_lower]

theorem Caseless.parseWith {inner : Bytes → Option (Bytes × Bytes)} (h : Caseless inner)
    (text : Bytes) : parseWith inner (text.map lowerByte) = parseWith inner text := by
  rw [Lib.parseWith, Lib.parseWith, h]
  rcases inner text with _ | ⟨octets,_ | ⟨b,rest⟩⟩ <;> rfl

theorem Ipv6Addr.parse_lower (text : Bytes) :
    Ipv6Addr.parse (text.map lowerByte) = Ipv6Addr.parse text := by
  have hlower : parseIpv6 (text.map lowerByte) = parseIpv6 text := readIpv6Addr_caseless.parseWith text
  cases hparse : parseIpv6 text with
  | none =>
    rw [hparse] at hlower
    rw [Ipv6Addr.parse_none hparse, Ipv6Addr.parse_none hlower]
  | some octets =>
    rw [hparse] at hlower
    rw [Ipv6Addr.parse_some hparse, Ipv6Addr.parse_some hlower]

theorem IpAddr.parse_leftOver {text octets rest : Bytes} {b : UInt8}
    (h : readIpv4Addr text = some (octets, b :: rest)) : IpAddr.parse text = none := by
  unfold IpAddr.parse
  split
  case h_1 hread => cases h.symm.trans hread
  case h_2 => rfl
  case h_3 hread => cases h.symm.trans hread

theorem IpAddr.parse_lower (text : Bytes) :
    IpAddr.parse (text.map lowerByte) = IpAddr.parse text := by
  have hlower := readIpv4Addr_caseless text
  rcases hread : readIpv4Addr text with _ | ⟨octets,_ | ⟨b,rest⟩⟩ <;> rw [hread] at hlower
  · rw [parse_ipv6 hread, parse_ipv6 hlower, Ipv6Addr.parse_lower]
  · rw [parse_ipv4 hread, parse_ipv4 hlower]
  · rw [parse_leftOver hread, parse_leftOver hlower]

theorem utf8EncodeChar_toLower (c : Char) :
    String.utf8EncodeChar c.toLower = (String.utf8EncodeChar c).map lowerByte := by
  by_cases hupper : 65 ≤ c.toNat ∧ c.toNat ≤ 90
  · have hlower := toNat_toLower hupper
    rw [utf8EncodeChar_ascii (by omega), utf8EncodeChar_ascii (by omega), hlower, List.map_singleton]
    congr 1
    rw [← UInt8.toNat_inj, lowerByte_toNat, UInt8.toNat_ofNat', UInt8.toNat_ofNat',
      Nat.mod_eq_of_lt (by omega), Nat.mod_eq_of_lt (by omega), if_pos hupper]
  · have hsame : ∀ b ∈ String.utf8EncodeChar c, lowerByte b = b := by
      intro b hb
      rw [← UInt8.toNat_inj, lowerByte_toNat]
      rcases utf8EncodeChar_cases c with ⟨hascii,henc⟩ | ⟨-,henc⟩
      · rw [henc, List.mem_singleton] at hb
        rw [hb, UInt8.toNat_ofNat', Nat.mod_eq_of_lt (by omega), if_neg hupper]
      · have hhigh := henc b hb
        rw [if_neg (by omega)]
    rw [toLower_of_not_upper hupper, List.map_congr_left hsame, List.map_id']

theorem utf8_toAsciiLowercase (text : List Char) :
    utf8 (toAsciiLowercase text) = (utf8 text).map lowerByte := by
  rw [utf8, utf8, toAsciiLowercase, List.flatMap_map, List.map_flatMap]
  simp only [utf8EncodeChar_toLower]

/-- Two texts that differ in the case of letters are one address, or none. -/
theorem IpAddr.parse_case {text text' : List Char}
    (h : toAsciiLowercase text = toAsciiLowercase text') :
    IpAddr.parse (utf8 text) = IpAddr.parse (utf8 text') := by
  rw [← IpAddr.parse_lower, ← utf8_toAsciiLowercase, h, utf8_toAsciiLowercase, IpAddr.parse_lower]

end AtlasKernel.Lib
