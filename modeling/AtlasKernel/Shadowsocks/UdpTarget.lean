import AtlasKernel.Lib.SocketAddr
import AtlasKernel.Lib.WireAddress
import AtlasKernel.Vless.Xudp

/-! The targets of Shadowsocks packets: how a target becomes an address, the key a reply
is waited for under, and UDP over TCP. The address bytes are those of the `shadowsocks`
crate, which is not at hand. Source: `shadowsocks/config.rs`, `direct_udp.rs`, `uot.rs`. -/
namespace AtlasKernel.Shadowsocks
open AtlasKernel.Lib AtlasKernel.Vless

/-- `Address` of the crate. -/
inductive Address where
  | socketAddress (address : SocketAddr)
  | domainNameAddress (host : String) (port : UInt16)
deriving DecidableEq, Repr

/-- `Display for TargetAddress` -/
def authority (target : TargetAddress) : String :=
  target.host ++ ":" ++ toString target.port.toNat

def targetAddress (target : TargetAddress) : Address :=
  match SocketAddr.parse (utf8 (authority target).toList) with
  | some address => .socketAddress address
  | none => .domainNameAddress target.host target.port

def udpPendingKey : Address → String
  | .socketAddress address => String.ofList address.text
  | .domainNameAddress host port => host.toLower ++ ":" ++ toString port.toNat

/-- What the bytes of an address can name: a scope id has no place in them. -/
def Address.endpoint : Address → Endpoint
  | .socketAddress (.v4 ip port) => ⟨.ip (.v4 ip), port⟩
  | .socketAddress (.v6 ip _ port) => ⟨.ip (.v6 ip), port⟩
  | .domainNameAddress host port => ⟨.domain host, port⟩

/-- The address that is read where an endpoint is named. -/
def addressOf (endpoint : Endpoint) : Address :=
  match endpoint.host with
  | .ip (.v4 ip) => .socketAddress (.v4 ip endpoint.port)
  | .ip (.v6 ip) => .socketAddress (.v6 ip 0 endpoint.port)
  | .domain host => .domainNameAddress host endpoint.port

/-- The address types of SOCKS5. -/
def socksCodes : AddressCodes := ⟨0x01, 0x04, 0x03, by decide, by decide, by decide⟩

def socksBytes (endpoint : Endpoint) : Bytes :=
  endpoint.host.bytes socksCodes ++ be16 endpoint.port.toNat

/-- What the crate documents: `write_to_buf` writes SOCKS5 addresses, and `read_cursor`
reads them and leaves what follows. -/
structure SocksAddresses (writeToBuf : Address → Bytes)
    (readCursor : Bytes → Option (Address × Bytes)) : Prop where
  writes : ∀ address : Address, address.endpoint.host.Fits →
    writeToBuf address = socksBytes address.endpoint
  reads : ∀ endpoint : Endpoint, endpoint.host.Fits → ∀ rest,
    readCursor (socksBytes endpoint ++ rest) = some (addressOf endpoint, rest)

def encodeUotPacket (writeToBuf : Address → Bytes) (address : Address) (payload : Bytes) :
    Except String Bytes :=
  if 65535 < payload.length then .error "UDP payload is too large for UoT framing"
  else .ok (writeToBuf address ++ be16 payload.length ++ payload)

def readUotPacket (stream : List Bytes) : Except String ((Address × Bytes) × List Bytes) :=
  match readHost socksCodes (fun other => s!"invalid UoT address type {other}") stream with
  | .error err => .error err
  | .ok (host, stream) =>
    match readU16 stream with
    | .error err => .error err
    | .ok (port, stream) =>
      match readU16 stream with
      | .error err => .error err
      | .ok (len, stream) =>
        match readExact len stream with
        | none => .error "early eof"
        | some (payload, stream) =>
          .ok ((addressOf ⟨host, UInt16.ofNat port⟩, payload), stream)

theorem readUotPacket_endpoint {endpoint : Endpoint} (hfits : endpoint.host.Fits) {payload : Bytes}
    (hpayload : payload.length < 65536) {stream : List Bytes} {bs : Bytes}
    (h : stream.flatten = endpoint.host.bytes socksCodes ++ (be16 endpoint.port.toNat ++
      (be16 payload.length ++ (payload ++ bs)))) :
    ∃ rest, readUotPacket stream = .ok ((addressOf endpoint, payload), rest) ∧
      rest.flatten = bs := by
  obtain ⟨next,hhost,hnext⟩ := readHost_bytes socksCodes _ hfits h
  obtain ⟨next',hport,hnext'⟩ := readU16_be16 endpoint.port.toNat_lt hnext
  obtain ⟨next'',hlen,hnext''⟩ := readU16_be16 hpayload hnext'
  obtain ⟨rest,hread,hrest⟩ := readExact_of_append hnext''
  refine ⟨rest,?_,hrest⟩
  rw [readUotPacket, hhost]
  simp only [hport, hlen, hread, UInt16.ofNat_toNat]

/-- What is waited for under a domain name is a name in any case of letters. -/
theorem udpPendingKey_domain {name name' : String} (h : name.toLower = name'.toLower)
    (port : UInt16) :
    udpPendingKey (.domainNameAddress name port) = udpPendingKey (.domainNameAddress name' port) := by
  rw [udpPendingKey, udpPendingKey, h]

theorem authority_bytes (target : TargetAddress) :
    utf8 (authority target).toList =
      utf8 target.host.toList ++ 0x3a :: utf8 (Nat.toDigits 10 target.port.toNat) := by
  rw [authority, Nat.toString_eq_repr, String.toList_append, String.toList_append, Nat.toList_repr,
    utf8_append, utf8_append, List.append_assoc]
  rfl

/-- An IPv4 literal becomes a socket address. -/
theorem targetAddress_ipv4 {target : TargetAddress} {octets : Bytes}
    (h : parseIpv4 (utf8 target.host.toList) = some octets) :
    SocketAddr.parse (utf8 (authority target).toList) =
      some (.v4 ⟨octets, parseIpv4_length h⟩ target.port) := by
  rw [authority_bytes]
  exact SocketAddr.parse_ipv4 h target.port

/-- With a scope id a socket address has a text of its own. -/
theorem text_scopeId_iff (ip : Ipv6Addr) (scopeId : Nat) (port : UInt16) :
    SocketAddr.text (.v6 ip scopeId port) = SocketAddr.text (.v6 ip 0 port) ↔ scopeId = 0 := by
  constructor
  · intro h
    by_contra hne
    simp [SocketAddr.text, hne] at h
  · rintro rfl
    rfl

end AtlasKernel.Shadowsocks
