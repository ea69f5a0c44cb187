import AtlasKernel.Lib.AddressText
import AtlasKernel.Lib.LeadingBits
import AtlasKernel.Lib.Text

/-! How the two routers match an address against a CIDR: the one of the kernel, to which the
address comes as the host of a target, and the one of the packet tunnel, with every shift and
subtraction checked. Source: `matches_cidr` in `routing.rs` of the kernel and in
`neoncore-routing`. -/
namespace AtlasKernel.Routing
open AtlasKernel.Lib

/-- `matches_cidr` of `neoncore-routing` -/
def tunMatchesCidr? (ip : IpAddr) (cidr : List Char) : Option Bool :=
  match splitOnce '/' cidr with
  | none => some false
  | some (base, length) =>
    match parseUnsigned 255 length with
    | none => some false
    | some length =>
      match ip, IpAddr.parse (utf8 base) with
      | .v4 ip, some (.v4 base) =>
        if length ≤ 32 then sameNetwork? length ip.toU32 base.toU32 else some false
      | .v6 ip, some (.v6 base) =>
        if length ≤ 128 then sameNetwork? length ip.toU128 base.toU128 else some false
      | _, _ => some false

/-- `matches_cidr` of the kernel -/
def kernelMatchesCidr? (host cidr : List Char) : Option Bool :=
  match IpAddr.parse (utf8 host) with
  | none => some false
  | some ip =>
    match splitOnce '/' cidr with
    | none => some false
    | some (base, length) =>
      match parseUnsigned 255 length with
      | none => some false
      | some length =>
        match ip, IpAddr.parse (utf8 base) with
        | .v4 ip, some (.v4 base) =>
          if length ≤ 32 then sameNetwork? length ip.toU32 base.toU32 else some false
        | .v6 ip, some (.v6 base) =>
          if length ≤ 128 then sameNetwork? length ip.toU128 base.toU128 else some false
        | _, _ => some false

example : kernelMatchesCidr? "255.1.2.3".toList "10.0.0.0/0".toList = some true := by decide +kernel

example : kernelMatchesCidr? "::1".toList "::2/127".toList = some false := by decide +kernel

/-! ## What a CIDR says -/

/-- Two addresses of one family, with the same first `length` bits. -/
def SameLeadingBits (length : Nat) : IpAddr → IpAddr → Prop
  | .v4 ip, .v4 base => length ≤ 32 ∧ ∀ i < length, octetBit ip.octets i = octetBit base.octets i
  | .v6 ip, .v6 base => length ≤ 128 ∧ ∀ i < length, octetBit ip.octets i = octetBit base.octets i
  | _, _ => False

/-- The text is an address, a slash and a length, and the address has that many leading bits in
common with it. -/
def InBlock (ip : IpAddr) (cidr : List Char) : Prop :=
  ∃ baseText lengthText base length, cidr = baseText ++ '/' :: lengthText ∧
    IpAddr.parse (utf8 baseText) = some base ∧ parseUnsigned 255 lengthText = some length ∧
    SameLeadingBits length ip base

/-- In the text of an address there is no slash. -/
theorem slash_notMem {text : List Char} {ip : IpAddr} (h : IpAddr.parse (utf8 text) = some ip) :
    '/' ∉ text := by
  intro hmem
  have hbyte : 0x2f ∈ utf8 text := List.mem_flatMap.mpr ⟨'/',hmem,by decide⟩
  exact absurd (IpAddr.parse_bytes h _ hbyte) (by decide)

theorem sameNetwork_octets {w length : Nat} {ip base : Bytes} (hip : w = 8 * ip.length)
    (hbase : w = 8 * base.length) (h : length ≤ w) :
    sameNetwork length (BitVec.ofNat w (ofOctets ip)) (BitVec.ofNat w (ofOctets base)) = true ↔
      ∀ i < length, octetBit ip i = octetBit base i := by
  rw [sameNetwork_bits h]
  refine forall₂_congr fun i hi => ?_
  rw [getMsbD_ofOctets hip (by omega), getMsbD_ofOctets hbase (by omega)]

theorem sameNetwork_v4 {length : Nat} (h : length ≤ 32) (ip base : Ipv4Addr) :
    sameNetwork length ip.toU32 base.toU32 = true ↔
      ∀ i < length, octetBit ip.octets i = octetBit base.octets i :=
  sameNetwork_octets (by rw [ip.size]) (by rw [base.size]) h

theorem sameNetwork_v6 {length : Nat} (h : length ≤ 128) (ip base : Ipv6Addr) :
    sameNetwork length ip.toU128 base.toU128 = true ↔
      ∀ i < length, octetBit ip.octets i = octetBit base.octets i :=
  sameNetwork_octets (by rw [ip.size]) (by rw [base.size]) h

/-! ## The two routers -/

/-- The router of the tunnel shifts by no more than there is room for. -/
theorem tunMatchesCidr?_eq (ip : IpAddr) (cidr : List Char) :
    tunMatchesCidr? ip cidr = some (matchesCidr ip cidr) := by
  rw [tunMatchesCidr?, matchesCidr]
  cases splitOnce '/' cidr with
  | none => rfl
  | some parts =>
    obtain ⟨baseText,lengthText⟩ := parts
    dsimp only
    cases parseUnsigned 255 lengthText with
    | none => rfl
    | some length =>
      dsimp only
      generalize IpAddr.parse (utf8 baseText) = parsed
      rcases ip with ip | ip <;> rcases parsed with _ | (base | base)
      case v4.some.v4 => exact sameNetwork?_guarded length ip.toU32 base.toU32
      case v6.some.v6 => exact sameNetwork?_guarded length ip.toU128 base.toU128
      all_goals rfl

/-- An address literal is matched by the router of the kernel as the address by the other. -/
theorem kernelMatchesCidr?_literal {host : List Char} {ip : IpAddr}
    (h : IpAddr.parse (utf8 host) = some ip) (cidr : List Char) :
    kernelMatchesCidr? host cidr = tunMatchesCidr? ip cidr := by
  rw [kernelMatchesCidr?, h]
  rfl

theorem kernelMatchesCidr?_name {host : List Char} (h : IpAddr.parse (utf8 host) = none)
    (cidr : List Char) : kernelMatchesCidr? host cidr = some false := by
  rw [kernelMatchesCidr?, h]

theorem matchesCidr_parts {cidr baseText lengthText : List Char} {length : Nat}
    (hsplit : splitOnce '/' cidr = some (baseText, lengthText))
    (hlength : parseUnsigned 255 lengthText = some length) (ip : IpAddr) :
    matchesCidr ip cidr = true ↔
      ∃ base, IpAddr.parse (utf8 baseText) = some base ∧ SameLeadingBits length ip base := by
  simp only [matchesCidr, hsplit, hlength]
  generalize IpAddr.parse (utf8 baseText) = parsed
  rcases ip with ip | ip <;> rcases parsed with _ | (base | base) <;>
    simp only [SameLeadingBits, Bool.and_eq_true, decide_eq_true_eq, Option.some.injEq,
      exists_eq_left', Bool.false_eq_true, exists_false, reduceCtorEq, false_and]
  case v4.some.v4 => exact and_congr_right fun hle => sameNetwork_v4 hle ip base
  case v6.some.v6 => exact and_congr_right fun hle => sameNetwork_v6 hle ip base

theorem matchesCidr_iff (ip : IpAddr) (cidr : List Char) :
    matchesCidr ip cidr = true ↔ InBlock ip cidr := by
  constructor
  · intro h
    cases hsplit : splitOnce '/' cidr with
    | none =>
      rw [matchesCidr, hsplit] at h
      cases h
    | some parts =>
      obtain ⟨baseText,lengthText⟩ := parts
      cases hlength : parseUnsigned 255 lengthText with
      | none =>
        simp only [matchesCidr, hsplit, hlength] at h
        cases h
      | some length =>
        obtain ⟨base,hbase,hbits⟩ := (matchesCidr_parts hsplit hlength ip).mp h
        exact ⟨baseText,lengthText,base,length,splitOnce_some hsplit,hbase,hlength,hbits⟩
  · rintro ⟨baseText,lengthText,base,length,rfl,hbase,hlength,hbits⟩
    have hsplit := splitOnce_first (slash_notMem hbase) lengthText
    exact (matchesCidr_parts hsplit hlength ip).mpr ⟨base,hbase,hbits⟩

/-- Both routers find exactly the addresses of the block, whatever the text is and without a
shift that overflows, and they agree wherever the host is an address. -/
theorem cidr_matching :
    (∀ ip cidr, ∃ matched, tunMatchesCidr? ip cidr = some matched ∧
      (matched = true ↔ InBlock ip cidr)) ∧
    (∀ host cidr, ∃ matched, kernelMatchesCidr? host cidr = some matched ∧
      (matched = true ↔ ∃ ip, IpAddr.parse (utf8 host) = some ip ∧ InBlock ip cidr)) ∧
    (∀ host ip cidr, IpAddr.parse (utf8 host) = some ip →
      kernelMatchesCidr? host cidr = tunMatchesCidr? ip cidr) ∧
    ∀ ip cidr, kernelMatchesCidr? (IpAddr.text ip) cidr = tunMatchesCidr? ip cidr := by
  refine ⟨fun ip cidr => ?_,fun host cidr => ?_,fun host ip cidr h => ?_,fun ip cidr => ?_⟩
  · exact ⟨_,tunMatchesCidr?_eq ip cidr,matchesCidr_iff ip cidr⟩
  · cases hparse : IpAddr.parse (utf8 host) with
    | none =>
      refine ⟨false,kernelMatchesCidr?_name hparse cidr,?_⟩
      simp
    | some ip =>
      refine ⟨matchesCidr ip cidr,?_,?_⟩
      · rw [kernelMatchesCidr?_literal hparse, tunMatchesCidr?_eq]
      · rw [matchesCidr_iff]
        simp
  · exact kernelMatchesCidr?_literal h cidr
  · exact kernelMatchesCidr?_literal ip.parse_text cidr

end AtlasKernel.Routing
