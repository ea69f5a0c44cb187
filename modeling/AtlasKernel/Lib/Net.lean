import AtlasKernel.Lib.IpAddr
import AtlasKernel.Lib.Text
import Mathlib.Algebra.Group.Nat.Defs

/-! Addresses as values: octets of the right number. -/
namespace AtlasKernel.Lib

structure Ipv4Addr where
  octets : Bytes
  size : octets.length = 4
deriving DecidableEq, Repr

structure Ipv6Addr where
  octets : Bytes
  size : octets.length = 16
deriving DecidableEq, Repr

inductive IpAddr where
  | v4 (ip : Ipv4Addr)
  | v6 (ip : Ipv6Addr)
deriving DecidableEq, Repr

def IpAddr.isIpv4 : IpAddr → Bool
  | .v4 _ => true
  | .v6 _ => false

def IpAddr.isIpv6 (ip : IpAddr) : Bool := !ip.isIpv4

/-- The number that octets in network order are. -/
def ofOctets (octets : Bytes) : Nat := octets.foldl (fun n b => n * 256 + b.toNat) 0

/-- `u32::from(ip)` -/
def Ipv4Addr.toU32 (ip : Ipv4Addr) : BitVec 32 := BitVec.ofNat 32 (ofOctets ip.octets)

/-- `u128::from(ip)` -/
def Ipv6Addr.toU128 (ip : Ipv6Addr) : BitVec 128 := BitVec.ofNat 128 (ofOctets ip.octets)

/-! ## Reading -/

/-- `Ipv4Addr::from_str` -/
def Ipv4Addr.parse (text : Bytes) : Option Ipv4Addr :=
  match h : parseIpv4 text with
  | none => none
  | some octets => some ⟨octets, parseIpv4_length h⟩

/-- `Ipv6Addr::from_str` -/
def Ipv6Addr.parse (text : Bytes) : Option Ipv6Addr :=
  match h : parseIpv6 text with
  | none => none
  | some octets => some ⟨octets, parseIpv6_length h⟩

/-- `read_ip_addr` of the standard library, the text to its end. -/
def IpAddr.parse (text : Bytes) : Option IpAddr :=
  match h : readIpv4Addr text with
  | some (octets, []) => some (.v4 ⟨octets, readIpv4Addr_length h⟩)
  | some (_, _ :: _) => none
  | none => (Ipv6Addr.parse text).map .v6

theorem Ipv4Addr.parse_some {text octets : Bytes} (h : parseIpv4 text = some octets) :
    Ipv4Addr.parse text = some ⟨octets, parseIpv4_length h⟩ := by
  unfold Ipv4Addr.parse
  split
  · next hnone => cases h.symm.trans hnone
  · next octets' hsome => cases h.symm.trans hsome; rfl

theorem Ipv4Addr.parse_none {text : Bytes} (h : parseIpv4 text = none) :
    Ipv4Addr.parse text = none := by
  unfold Ipv4Addr.parse
  split <;> simp_all

theorem Ipv6Addr.parse_some {text octets : Bytes} (h : parseIpv6 text = some octets) :
    Ipv6Addr.parse text = some ⟨octets, parseIpv6_length h⟩ := by
  unfold Ipv6Addr.parse
  split
  · next hnone => cases h.symm.trans hnone
  · next octets' hsome => cases h.symm.trans hsome; rfl

theorem Ipv6Addr.parse_none {text : Bytes} (h : parseIpv6 text = none) :
    Ipv6Addr.parse text = none := by
  unfold Ipv6Addr.parse
  split <;> simp_all

/-- Whether two numbers agree in their first `length` bits:
`ip & mask == base & mask`. -/
def sameNetwork {w : Nat} (length : Nat) (ip base : BitVec w) : Bool :=
  let mask := if length = 0 then 0 else BitVec.allOnes w <<< (w - length)
  ip &&& mask = base &&& mask

/-- A CIDR block as text: an address, a slash and the number of leading bits that count. -/
def matchesCidr (ip : IpAddr) (cidr : List Char) : Bool :=
  match splitOnce '/' cidr with
  | none => false
  | some (base, length) =>
    match parseUnsigned 255 length with
    | none => false
    | some length =>
      match ip, IpAddr.parse (utf8 base) with
      | .v4 ip, some (.v4 base) => length ≤ 32 && sameNetwork length ip.toU32 base.toU32
      | .v6 ip, some (.v6 base) => length ≤ 128 && sameNetwork length ip.toU128 base.toU128
      | _, _ => false

/-- Two numbers are in one network if they agree without the bits of the host. -/
theorem sameNetwork_iff {w : Nat} (length : Nat) (ip base : BitVec w) :
    sameNetwork length ip base = true ↔
      ip.toNat / 2 ^ (w - length) = base.toNat / 2 ^ (w - length) := by
  have hmask : (if length = 0 then 0 else BitVec.allOnes w <<< (w - length)) =
      BitVec.allOnes w <<< (w - length) := by
    split_ifs with hzero
    · rw [hzero, Nat.sub_zero, BitVec.shiftLeft_eq_zero (Nat.le_refl w)]
      rfl
    · rfl
  have hkept : ∀ x : BitVec w, (x &&& BitVec.allOnes w <<< (w - length)).toNat =
      x.toNat / 2 ^ (w - length) * 2 ^ (w - length) := by
    intro x
    rw [← BitVec.shiftLeft_ushiftRight, BitVec.toNat_shiftLeft, BitVec.toNat_ushiftRight,
      Nat.shiftRight_eq_div_pow, Nat.shiftLeft_eq]
    exact Nat.mod_eq_of_lt ((Nat.div_mul_le_self _ _).trans_lt x.isLt)
  have hpos : 0 < 2 ^ (w - length) := Nat.two_pow_pos _
  rw [sameNetwork]
  simp only [hmask, decide_eq_true_eq]
  rw [← BitVec.toNat_inj, hkept, hkept]
  exact Nat.mul_right_cancel_iff hpos

theorem Ipv4Addr.octets_eq (ip : Ipv4Addr) :
    ip.octets = [byteAt ip.octets 0, byteAt ip.octets 1, byteAt ip.octets 2, byteAt ip.octets 3] := by
  have htake := take_eq_map_byteAt (Nat.le_of_eq ip.size.symm)
  rw [← ip.size, List.take_length, ip.size] at htake
  exact htake

theorem Ipv4Addr.toU32_toNat (ip : Ipv4Addr) :
    ip.toU32.toNat = (byteAt ip.octets 0).toNat * 16777216 + (byteAt ip.octets 1).toNat * 65536 +
      (byteAt ip.octets 2).toNat * 256 + (byteAt ip.octets 3).toNat := by
  have ha := (byteAt ip.octets 0).toNat_lt
  have hb := (byteAt ip.octets 1).toNat_lt
  have hc := (byteAt ip.octets 2).toNat_lt
  have hd := (byteAt ip.octets 3).toNat_lt
  rw [Ipv4Addr.toU32, BitVec.toNat_ofNat, ip.octets_eq]
  simp only [ofOctets, List.foldl_cons, List.foldl_nil, byteAt, List.getD_cons_zero, List.getD_cons_succ]
  simp only [byteAt] at ha hb hc hd
  omega

/-! ## Canonical text -/

/-- `Display for Ipv4Addr` -/
def Ipv4Addr.text (ip : Ipv4Addr) : List Char :=
  ['.'].intercalate (ip.octets.map fun b => Nat.toDigits 10 b.toNat)

def Ipv6Addr.segments (ip : Ipv6Addr) : List Nat :=
  (List.range 8).map fun i => be16At ip.octets (2 * i)

def Ipv6Addr.toIpv4Mapped (ip : Ipv6Addr) : Option Ipv4Addr :=
  if ip.octets.take 12 = List.replicate 10 0 ++ [0xff, 0xff] then
    some ⟨ip.octets.drop 12, by rw [List.length_drop, ip.size]⟩
  else none

/-! ## Kinds of addresses -/

def Ipv4Addr.isUnspecified (ip : Ipv4Addr) : Bool := ip.octets = [0, 0, 0, 0]

def Ipv4Addr.isBroadcast (ip : Ipv4Addr) : Bool := ip.octets = [255, 255, 255, 255]

def Ipv4Addr.isLinkLocal (ip : Ipv4Addr) : Bool := byteAt ip.octets 0 = 169 && byteAt ip.octets 1 = 254

def Ipv6Addr.isUnspecified (ip : Ipv6Addr) : Bool := ip.octets = List.replicate 16 0

def Ipv6Addr.isUnicastLinkLocal (ip : Ipv6Addr) : Bool := be16At ip.octets 0 &&& 0xffc0 = 0xfe80

def IpAddr.isUnspecified : IpAddr → Bool
  | .v4 ip => ip.isUnspecified
  | .v6 ip => ip.isUnspecified

def IpAddr.isBroadcast : IpAddr → Bool
  | .v4 ip => ip.isBroadcast
  | .v6 _ => false

def IpAddr.isLinkLocal : IpAddr → Bool
  | .v4 ip => ip.isLinkLocal
  | .v6 ip => ip.isUnicastLinkLocal

def IpAddr.isIpv4Mapped : IpAddr → Bool
  | .v4 _ => false
  | .v6 ip => ip.toIpv4Mapped.isSome

/-! ## Text -/

structure Span where
  start : Nat
  len : Nat
deriving DecidableEq, Repr

/-- The first of the longest runs of zeros, from position `i` on. -/
def longestZeroes (i : Nat) (longest current : Span) : List Nat → Span
  | [] => longest
  | 0 :: segments =>
    let current : Span := ⟨if current.len = 0 then i else current.start, current.len + 1⟩
    longestZeroes (i + 1) (if longest.len < current.len then current else longest) current segments
  | _ :: segments => longestZeroes (i + 1) longest ⟨0, 0⟩ segments

/-- `fmt_subslice` -/
def hexGroups (chunk : List Nat) : List Char := [':'].intercalate (chunk.map (Nat.toDigits 16))

/-- `Display for Ipv6Addr` -/
def Ipv6Addr.text (ip : Ipv6Addr) : List Char :=
  match ip.toIpv4Mapped with
  | some ipv4 => "::ffff:".toList ++ ipv4.text
  | none =>
    let zeroes := longestZeroes 0 ⟨0, 0⟩ ⟨0, 0⟩ ip.segments
    if 1 < zeroes.len then
      hexGroups (ip.segments.take zeroes.start) ++ [':', ':'] ++
        hexGroups (ip.segments.drop (zeroes.start + zeroes.len))
    else hexGroups ip.segments

/-- `Display for IpAddr` -/
def IpAddr.text : IpAddr → List Char
  | .v4 ip => ip.text
  | .v6 ip => ip.text

end AtlasKernel.Lib
