import AtlasKernel.Lib.WireAddress
import AtlasKernel.Vless.Xudp

/-! UDP over TCP as AnyTLS speaks it: an address, a length and a payload. Source:
`adapter/anytls.rs`. -/
namespace AtlasKernel.AnyTls
open AtlasKernel.Lib AtlasKernel.Vless

def encodeUotAddress (target : TargetAddress) : Except String Bytes :=
  let port := be16 target.port.toNat
  match parseIpv4 target.hostBytes with
  | some octets => .ok ([0x00] ++ octets ++ port)
  | none =>
    match parseIpv6 target.hostBytes with
    | some octets => .ok ([0x01] ++ octets ++ port)
    | none =>
      let domain := target.hostBytes
      if 255 < domain.length then .error "UoT target domain is too long"
      else .ok ([0x02, UInt8.ofNat domain.length] ++ domain ++ port)

def encodeUotPacket (target : TargetAddress) (payload : Bytes) : Except String Bytes :=
  if 65535 < payload.length then .error "UoT payload is too large"
  else (encodeUotAddress target).map (· ++ be16 payload.length ++ payload)

/-- The address types of UDP over TCP. -/
def uotCodes : AddressCodes := ⟨0x00, 0x01, 0x02, by decide, by decide, by decide⟩

def readUotAddress (stream : List Bytes) : Except String (TargetAddress × List Bytes) :=
  match readHost uotCodes (fun _ => "unsupported UoT address type") stream with
  | .error err => .error err
  | .ok (host, stream) => (readU16 stream).map fun r => (⟨host.text, UInt16.ofNat r.1⟩, r.2)

/-- `read_uot_packet` with `is_connect` false. -/
def readUotPacket (stream : List Bytes) :
    Except String ((TargetAddress × Bytes) × List Bytes) :=
  match readUotAddress stream with
  | .error err => .error err
  | .ok (destination, stream) =>
    match readU16 stream with
    | .error err => .error err
    | .ok (len, stream) =>
      match readExact len stream with
      | none => .error "early eof"
      | some (payload, stream) => .ok ((destination, payload), stream)

/-- `udp_conn_key` -/
def udpConnKey (target : TargetAddress) : String := packetTargetKey target.host target.port

theorem readUotAddress_endpoint {endpoint : Endpoint} (hfits : endpoint.host.Fits)
    {stream : List Bytes} {bs : Bytes}
    (h : stream.flatten = endpoint.host.bytes uotCodes ++ (be16 endpoint.port.toNat ++ bs)) :
    ∃ rest, readUotAddress stream = .ok (⟨endpoint.host.text, endpoint.port⟩, rest) ∧
      rest.flatten = bs := by
  obtain ⟨next,hhost,hnext⟩ := readHost_bytes uotCodes _ hfits h
  obtain ⟨rest,hport,hrest⟩ := readU16_be16 endpoint.port.toNat_lt hnext
  refine ⟨rest,?_,hrest⟩
  rw [readUotAddress, hhost]
  simp only [hport, Except.map, UInt16.ofNat_toNat]

theorem readUotPacket_endpoint {endpoint : Endpoint} (hfits : endpoint.host.Fits) {payload : Bytes}
    (hpayload : payload.length < 65536) {stream : List Bytes} {bs : Bytes}
    (h : stream.flatten = endpoint.host.bytes uotCodes ++ (be16 endpoint.port.toNat ++
      (be16 payload.length ++ (payload ++ bs)))) :
    ∃ rest, readUotPacket stream = .ok ((⟨endpoint.host.text, endpoint.port⟩, payload), rest) ∧
      rest.flatten = bs := by
  obtain ⟨next,haddress,hnext⟩ := readUotAddress_endpoint hfits h
  obtain ⟨next',hlen,hnext'⟩ := readU16_be16 hpayload hnext
  obtain ⟨rest,hread,hrest⟩ := readExact_of_append hnext'
  refine ⟨rest,?_,hrest⟩
  rw [readUotPacket, haddress]
  simp only [hlen, hread]

/-- A request names the host that its text stands for. -/
theorem encodeUotAddress_bytes {target : TargetAddress} {bytes : Bytes}
    (h : encodeUotAddress target = .ok bytes) :
    bytes = (Host.ofText target.host).bytes uotCodes ++ be16 target.port.toNat ∧
      (Host.ofText target.host).Fits := by
  unfold encodeUotAddress TargetAddress.hostBytes at h
  cases h₄ : parseIpv4 (utf8 target.host.toList) with
  | some octets =>
    rw [h₄] at h
    cases h
    rw [Host.ofText_ipv4 h₄]
    exact ⟨rfl,trivial⟩
  | none =>
    rw [h₄] at h
    cases h₆ : parseIpv6 (utf8 target.host.toList) with
    | some octets =>
      rw [h₆] at h
      cases h
      rw [Host.ofText_ipv6 h₄ h₆]
      exact ⟨rfl,trivial⟩
    | none =>
      rw [h₆] at h
      simp only at h
      split at h
      · cases h
      · next hshort =>
        cases h
        rw [Host.ofText_domain h₄ h₆]
        exact ⟨rfl,Nat.le_of_not_lt hshort⟩

theorem encodeUotAddress_ok {target : TargetAddress} (h : HostFits target.hostBytes) :
    encodeUotAddress target =
      .ok ((Host.ofText target.host).bytes uotCodes ++ be16 target.port.toNat) := by
  cases hencode : encodeUotAddress target with
  | ok bytes => rw [(encodeUotAddress_bytes hencode).1]
  | error err =>
    unfold encodeUotAddress at hencode
    unfold HostFits at h
    split at hencode
    · cases hencode
    · split at hencode
      · cases hencode
      · dsimp only at hencode
        split at hencode
        · simp_all
          omega
        · cases hencode

end AtlasKernel.AnyTls
