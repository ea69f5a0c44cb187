import AtlasKernel.Lib.Net
import AtlasKernel.Lib.SegmentReader

/-! The addresses of proxy protocols on the wire: a type, then an IP address or a name
with its length. The protocols differ in the numbers of the types. -/
namespace AtlasKernel.Lib

inductive Host where
  | ip (address : IpAddr)
  | domain (name : String)
deriving DecidableEq, Repr

structure Endpoint where
  host : Host
  port : UInt16
deriving DecidableEq, Repr

def Host.text : Host → String
  | .ip address => String.ofList address.text
  | .domain name => name

/-- The host that a text names: an IP address if it can be read as one. -/
def Host.ofText (text : String) : Host :=
  match Ipv4Addr.parse (utf8 text.toList) with
  | some address => .ip (.v4 address)
  | none =>
    match Ipv6Addr.parse (utf8 text.toList) with
    | some address => .ip (.v6 address)
    | none => .domain text

theorem Host.ofText_ipv4 {text : String} {octets : Bytes}
    (h : parseIpv4 (utf8 text.toList) = some octets) :
    Host.ofText text = .ip (.v4 ⟨octets, parseIpv4_length h⟩) := by
  simp only [Host.ofText, Ipv4Addr.parse_some h]

theorem Host.ofText_ipv6 {text : String} {octets : Bytes}
    (h₄ : parseIpv4 (utf8 text.toList) = none) (h : parseIpv6 (utf8 text.toList) = some octets) :
    Host.ofText text = .ip (.v6 ⟨octets, parseIpv6_length h⟩) := by
  simp only [Host.ofText, Ipv4Addr.parse_none h₄, Ipv6Addr.parse_some h]

theorem Host.ofText_domain {text : String} (h₄ : parseIpv4 (utf8 text.toList) = none)
    (h₆ : parseIpv6 (utf8 text.toList) = none) : Host.ofText text = .domain text := by
  simp only [Host.ofText, Ipv4Addr.parse_none h₄, Ipv6Addr.parse_none h₆]

structure AddressCodes where
  ipv4 : UInt8
  ipv6 : UInt8
  domain : UInt8
  ipv6_ne_ipv4 : ipv6 ≠ ipv4
  domain_ne_ipv4 : domain ≠ ipv4
  domain_ne_ipv6 : domain ≠ ipv6

/-- A name goes with its length in one byte. -/
def Host.bytes (codes : AddressCodes) : Host → Bytes
  | .ip (.v4 address) => codes.ipv4 :: address.octets
  | .ip (.v6 address) => codes.ipv6 :: address.octets
  | .domain name =>
    codes.domain :: UInt8.ofNat (utf8 name.toList).length :: utf8 name.toList

theorem Host.bytes_pos (codes : AddressCodes) (host : Host) : 0 < (host.bytes codes).length := by
  cases host with
  | ip address => cases address <;> simp [bytes]
  | domain name => simp [bytes]

/-- The length of a name has room in its byte. -/
def Host.Fits : Host → Prop
  | .ip _ => True
  | .domain name => (utf8 name.toList).length ≤ 255

instance : (host : Host) → Decidable host.Fits
  | .ip _ => inferInstanceAs (Decidable True)
  | .domain _ => inferInstanceAs (Decidable (_ ≤ _))

/-! ## From a stream -/

def readU8 (stream : List Bytes) : Except String (UInt8 × List Bytes) :=
  match readOne stream with
  | none => .error "early eof"
  | some r => .ok r

def readU16 (stream : List Bytes) : Except String (Nat × List Bytes) :=
  match readExact 2 stream with
  | none => .error "early eof"
  | some (bytes, stream) => .ok (be16At bytes 0, stream)

/-- A type, and what it announces; `unsupported` is the message for any other type. -/
def readHost (codes : AddressCodes) (unsupported : UInt8 → String) (stream : List Bytes) :
    Except String (Host × List Bytes) :=
  match readU8 stream with
  | .error err => .error err
  | .ok (atyp, stream) =>
    if atyp = codes.ipv4 then
      match h : readExact 4 stream with
      | none => .error "early eof"
      | some (octets, stream) => .ok (.ip (.v4 ⟨octets, (readExact_flatten h).2⟩), stream)
    else if atyp = codes.ipv6 then
      match h : readExact 16 stream with
      | none => .error "early eof"
      | some (octets, stream) => .ok (.ip (.v6 ⟨octets, (readExact_flatten h).2⟩), stream)
    else if atyp = codes.domain then
      match readU8 stream with
      | .error err => .error err
      | .ok (len, stream) =>
        match readExact len.toNat stream with
        | none => .error "early eof"
        | some (name, stream) => (fromUtf8 name).map fun name => (.domain name, stream)
    else .error (unsupported atyp)

theorem readU8_cons {stream : List Bytes} {b : UInt8} {bs : Bytes} (h : stream.flatten = b :: bs) :
    ∃ rest, readU8 stream = .ok (b, rest) ∧ rest.flatten = bs := by
  obtain ⟨rest,hread,hrest⟩ := readOne_of_cons h
  exact ⟨rest,by rw [readU8, hread],hrest⟩

theorem readU16_be16 {stream : List Bytes} {n : Nat} {bs : Bytes} (hn : n < 65536)
    (h : stream.flatten = be16 n ++ bs) :
    ∃ rest, readU16 stream = .ok (n, rest) ∧ rest.flatten = bs := by
  obtain ⟨rest,hread,hrest⟩ := readExact_of_append h
  have hvalue := be16At_be16 n []
  rw [List.append_nil, Nat.mod_eq_of_lt hn] at hvalue
  refine ⟨rest,?_,hrest⟩
  have hread' : readExact 2 stream = some (be16 n, rest) := hread
  rw [readU16, hread']
  simp only [hvalue]

/-- Every host that fits is read as it was written, wherever the stream is cut. -/
theorem readHost_bytes (codes : AddressCodes) (unsupported : UInt8 → String) {host : Host}
    (hfits : host.Fits) {stream : List Bytes} {bs : Bytes}
    (h : stream.flatten = host.bytes codes ++ bs) :
    ∃ rest, readHost codes unsupported stream = .ok (host, rest) ∧ rest.flatten = bs := by
  cases host with
  | ip ip =>
    cases ip with
    | v4 ip =>
      have hcons : stream.flatten = codes.ipv4 :: (ip.octets ++ bs) := h
      obtain ⟨next,hatyp,hnext⟩ := readU8_cons hcons
      obtain ⟨rest,hread,hrest⟩ := readExact_of_append hnext
      rw [ip.size] at hread
      refine ⟨rest,?_,hrest⟩
      rw [readHost, hatyp]
      simp only [if_true]
      split
      · next hnone => cases hread.symm.trans hnone
      · next octets stream' hsome => cases hread.symm.trans hsome; rfl
    | v6 ip =>
      have hcons : stream.flatten = codes.ipv6 :: (ip.octets ++ bs) := h
      obtain ⟨next,hatyp,hnext⟩ := readU8_cons hcons
      obtain ⟨rest,hread,hrest⟩ := readExact_of_append hnext
      rw [ip.size] at hread
      refine ⟨rest,?_,hrest⟩
      rw [readHost, hatyp]
      simp only [if_neg codes.ipv6_ne_ipv4, if_true]
      split
      · next hnone => cases hread.symm.trans hnone
      · next octets stream' hsome => cases hread.symm.trans hsome; rfl
  | domain name =>
    have hcons : stream.flatten = codes.domain :: UInt8.ofNat (utf8 name.toList).length ::
        (utf8 name.toList ++ bs) := h
    obtain ⟨next,hatyp,hnext⟩ := readU8_cons hcons
    obtain ⟨next',hlen,hnext'⟩ := readU8_cons hnext
    obtain ⟨rest,hread,hrest⟩ := readExact_of_append hnext'
    have hbyte : (UInt8.ofNat (utf8 name.toList).length).toNat = (utf8 name.toList).length := by
      rw [UInt8.toNat_ofNat', Nat.mod_eq_of_lt (Nat.lt_succ_of_le hfits)]
    refine ⟨rest,?_,hrest⟩
    rw [readHost, hatyp]
    simp only [if_neg codes.domain_ne_ipv4, if_neg codes.domain_ne_ipv6, if_true, hlen, hbyte,
      hread, fromUtf8_utf8]
    rfl

end AtlasKernel.Lib
