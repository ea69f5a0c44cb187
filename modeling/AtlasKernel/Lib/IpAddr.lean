import AtlasKernel.Lib.Bytes

/-! The address parsers of the standard library, `Ipv4Addr::from_str` and
`Ipv6Addr::from_str`, on the bytes of the text. -/
namespace AtlasKernel.Lib
variable {β : Type*}

/-- `char::to_digit` -/
def toDigit (radix : Nat) (b : UInt8) : Option Nat :=
  let digit :=
    if 0x30 ≤ b ∧ b ≤ 0x39 then some (b.toNat - 0x30)
    else if 0x61 ≤ b ∧ b ≤ 0x7a then some (b.toNat - 0x61 + 10)
    else if 0x41 ≤ b ∧ b ≤ 0x5a then some (b.toNat - 0x41 + 10)
    else none
  digit.filter (· < radix)

def readDigits (radix maxDigits bound : Nat) :
    Bytes → (result digitCount : Nat) → Option (Nat × Nat × Bytes)
  | [], result, digitCount => some (result, digitCount, [])
  | b :: bs, result, digitCount =>
    match toDigit radix b with
    | none => some (result, digitCount, b :: bs)
    | some digit =>
      if bound < result * radix + digit then none
      else if maxDigits < digitCount + 1 then none
      else readDigits radix maxDigits bound bs (result * radix + digit) (digitCount + 1)

/-- `bound` is the greatest value of the number type. -/
def readNumber (radix maxDigits bound : Nat) (allowZeroPrefix : Bool) (input : Bytes) :
    Option (Nat × Bytes) :=
  match readDigits radix maxDigits bound input 0 0 with
  | none => none
  | some (result, digitCount, rest) =>
    if digitCount = 0 then none
    else if !allowZeroPrefix ∧ input.head? = some 0x30 ∧ 1 < digitCount then none
    else some (result, rest)

def readGivenChar (c : UInt8) : Bytes → Option Bytes
  | [] => none
  | b :: bs => if b = c then some bs else none

def readSeparator (sep : UInt8) (index : Nat) (inner : Bytes → Option (β × Bytes))
    (input : Bytes) : Option (β × Bytes) :=
  if 0 < index then (readGivenChar sep input).bind inner else inner input

def readIpv4Addr (input : Bytes) : Option (Bytes × Bytes) := do
  let octet := readNumber 10 3 255 false
  let (a, input) ← readSeparator 0x2e 0 octet input
  let (b, input) ← readSeparator 0x2e 1 octet input
  let (c, input) ← readSeparator 0x2e 2 octet input
  let (d, input) ← readSeparator 0x2e 3 octet input
  return ([UInt8.ofNat a, UInt8.ofNat b, UInt8.ofNat c, UInt8.ofNat d], input)

/-- The groups from `index` on, as octets, with at most `left` more of them, and whether
they end in an embedded IPv4 address. -/
def readGroups (index : Nat) : (left : Nat) → Bytes → List Bytes × Bool × Bytes
  | 0, input => ([], false, input)
  | left + 1, input =>
    match if 0 < left then readSeparator 0x3a index readIpv4Addr input else none with
    | some (octets, input) => ([octets.take 2, octets.drop 2], true, input)
    | none =>
      match readSeparator 0x3a index (readNumber 16 4 65535 true) input with
      | none => ([], false, input)
      | some (group, input) =>
        let r := readGroups (index + 1) left input
        (be16 group :: r.1, r.2)

def readIpv6Addr (input : Bytes) : Option (Bytes × Bytes) :=
  match readGroups 0 8 input with
  | (head, headIpv4, input) =>
    if head.length = 8 then some (head.flatten, input)
    else if headIpv4 then none
    else do
      let input ← readGivenChar 0x3a input
      let input ← readGivenChar 0x3a input
      let (tail, _, input) := readGroups 0 (8 - (head.length + 1)) input
      let zeroes : List Bytes := List.replicate (8 - head.length - tail.length) [0, 0]
      return ((head ++ zeroes ++ tail).flatten, input)

/-- The whole text has to be the address. -/
def parseWith (inner : Bytes → Option (Bytes × Bytes)) (text : Bytes) : Option Bytes :=
  match inner text with
  | some (octets, []) => some octets
  | _ => none

def parseIpv4 (text : Bytes) : Option Bytes :=
  if 15 < text.length then none else parseWith readIpv4Addr text

def parseIpv6 (text : Bytes) : Option Bytes := parseWith readIpv6Addr text

/-! ## How many octets there are -/

theorem readIpv4Addr_length {input octets rest : Bytes}
    (h : readIpv4Addr input = some (octets, rest)) : octets.length = 4 := by
  simp only [readIpv4Addr, Option.bind_eq_bind, Option.bind_eq_some_iff, Option.pure_def,
    Option.some.injEq, Prod.mk.injEq, Prod.exists] at h
  obtain ⟨a,_,_,b,_,_,c,_,_,d,_,_,rfl,_⟩ := h
  rfl

/-- Whatever stands before an address, it has four octets. -/
theorem readSeparator_ipv4_length {sep : UInt8} {index : Nat} {input octets rest : Bytes}
    (h : readSeparator sep index readIpv4Addr input = some (octets, rest)) :
    octets.length = 4 := by
  rw [readSeparator] at h
  split at h
  · obtain ⟨input',_,hinput⟩ := Option.bind_eq_some_iff.mp h
    exact readIpv4Addr_length hinput
  · exact readIpv4Addr_length h

/-- The groups are pairs of octets, and no more of them than there is room for. -/
theorem readGroups_length (index left : Nat) (input : Bytes) :
    (∀ group ∈ (readGroups index left input).1, group.length = 2) ∧
      (readGroups index left input).1.length ≤ left := by
  induction left generalizing index input with
  | zero => simp [readGroups]
  | succ left ih =>
    rw [readGroups]
    split
    · next octets rest hipv4 =>
      by_cases hleft : 0 < left
      · rw [if_pos hleft] at hipv4
        have hlen := readSeparator_ipv4_length hipv4
        simp
        omega
      · rw [if_neg hleft] at hipv4
        cases hipv4
    · split
      · simp
      · next group rest _ =>
        obtain ⟨hpairs,hcount⟩ := ih (index+1) rest
        simp only [List.mem_cons, List.length_cons]
        refine ⟨?_,by omega⟩
        intro g hg
        obtain rfl | hg := hg
        · rfl
        · exact hpairs g hg

theorem flatten_pairs_length {groups : List Bytes} (h : ∀ group ∈ groups, group.length = 2) :
    groups.flatten.length = 2 * groups.length := by
  induction groups with
  | nil => rfl
  | cons group groups ih =>
    have hrest := ih fun g hg => h g (List.mem_cons_of_mem _ hg)
    rw [List.flatten_cons, List.length_append, hrest, h group List.mem_cons_self, List.length_cons]
    omega

theorem readIpv6Addr_length {input octets rest : Bytes}
    (h : readIpv6Addr input = some (octets, rest)) : octets.length = 16 := by
  rw [readIpv6Addr] at h
  obtain ⟨hpairs,hcount⟩ := readGroups_length 0 8 input
  generalize readGroups 0 8 input = r at h hpairs hcount
  obtain ⟨head,headIpv4,input'⟩ := r
  simp only at h hpairs hcount
  by_cases hfull : head.length = 8
  · rw [if_pos hfull] at h
    cases h
    rw [flatten_pairs_length hpairs, hfull]
  · rw [if_neg hfull] at h
    cases headIpv4 with
    | true => cases h
    | false =>
      simp only [Bool.false_eq_true, if_false, Option.bind_eq_bind, Option.bind_eq_some_iff,
        Option.pure_def, Option.some.injEq, Prod.mk.injEq] at h
      obtain ⟨_,_,input'',_,rfl,_⟩ := h
      obtain ⟨htail,htailCount⟩ := readGroups_length 0 (8-(head.length+1)) input''
      rw [flatten_pairs_length]
      · simp only [List.length_append, List.length_replicate]
        omega
      · intro group hgroup
        simp only [List.mem_append, List.mem_replicate] at hgroup
        obtain (hgroup | ⟨_,rfl⟩) | hgroup := hgroup
        · exact hpairs group hgroup
        · rfl
        · exact htail group hgroup

theorem parseWith_eq_some {inner : Bytes → Option (Bytes × Bytes)} {text octets : Bytes}
    (h : parseWith inner text = some octets) : inner text = some (octets, []) := by
  rw [parseWith] at h
  split at h
  · next heq => cases h; exact heq
  · cases h

theorem parseIpv4_length {text octets : Bytes} (h : parseIpv4 text = some octets) :
    octets.length = 4 := by
  rw [parseIpv4] at h
  split at h
  · cases h
  · exact readIpv4Addr_length (parseWith_eq_some h)

theorem parseIpv6_length {text octets : Bytes} (h : parseIpv6 text = some octets) :
    octets.length = 16 := readIpv6Addr_length (parseWith_eq_some h)

end AtlasKernel.Lib
