import AtlasKernel.AnyTls.Uot
import AtlasKernel.Shadowsocks.UdpTarget
import AtlasKernel.Vless.XudpCodec

/-! The keys of packet replies. A request registers a key made from the text of its
target; a reply is delivered under a key made from the address it names. Source:
`packet_session.rs`, `adapter/vless.rs`, `adapter/anytls.rs`, `shadowsocks/direct_udp.rs`,
`shadowsocks/uot.rs`. -/
namespace AtlasKernel.PacketSession
open AtlasKernel.Lib AtlasKernel.Vless AtlasKernel.Shadowsocks

inductive UdpProtocol where
  | vlessXudp | anytlsUot | shadowsocksDirect | shadowsocksUot
deriving DecidableEq, Repr

def registeredKey (protocol : UdpProtocol) (target : TargetAddress) : String :=
  match protocol with
  | .vlessXudp => packetTargetKey target.host target.port
  | .anytlsUot => AnyTls.udpConnKey target
  | .shadowsocksDirect | .shadowsocksUot => udpPendingKey (targetAddress target)

section
variable (writeToBuf : Address → Bytes) (readCursor : Bytes → Option (Address × Bytes))

/-- The address of a request as it goes to the server. -/
def requestAddress (protocol : UdpProtocol) (target : TargetAddress) : Except String Bytes :=
  match protocol with
  | .vlessXudp => encodePortThenAddress target
  | .anytlsUot => AnyTls.encodeUotAddress target
  | .shadowsocksDirect | .shadowsocksUot => .ok (writeToBuf (targetAddress target))

/-- The key of the first packet in what the server has sent, which comes in pieces. -/
def replyKey (protocol : UdpProtocol) (stream : List Bytes) : Option String :=
  match protocol with
  | .vlessXudp =>
    match (takeXudpPacket stream.flatten).1 with
    | .ok (some ⟨some target, _⟩) => some (packetTargetKey target.host target.port)
    | _ => none
  | .anytlsUot =>
    match AnyTls.readUotPacket stream with
    | .ok ((target, _), _) => some (AnyTls.udpConnKey target)
    | .error _ => none
  | .shadowsocksDirect => (readCursor stream.flatten).map fun r => udpPendingKey r.1
  | .shadowsocksUot =>
    match readUotPacket stream with
    | .ok ((address, _), _) => some (udpPendingKey address)
    | .error _ => none

end

/-! ## The server -/

/-- How an endpoint is named in each protocol. -/
def endpointBytes (protocol : UdpProtocol) (endpoint : Endpoint) : Bytes :=
  match protocol with
  | .vlessXudp => be16 endpoint.port.toNat ++ endpoint.host.bytes vlessCodes
  | .anytlsUot => endpoint.host.bytes AnyTls.uotCodes ++ be16 endpoint.port.toNat
  | .shadowsocksDirect | .shadowsocksUot => socksBytes endpoint

/-- A reply: a mux frame that keeps the session and carries data, a packet with its
length, or the body of a datagram. -/
def replyPacket (protocol : UdpProtocol) (answered : Endpoint) (payload : Bytes) : Bytes :=
  match protocol with
  | .vlessXudp => xudpFrame ([0, 0, 2, 1, 2] ++ endpointBytes protocol answered) payload
  | .shadowsocksDirect => endpointBytes protocol answered ++ payload
  | .anytlsUot | .shadowsocksUot =>
    endpointBytes protocol answered ++ (be16 payload.length ++ payload)

/-- The endpoint a request asks for. -/
def askedEndpoint (protocol : UdpProtocol) (target : TargetAddress) : Endpoint :=
  match protocol with
  | .vlessXudp | .anytlsUot => ⟨.ofText target.host, target.port⟩
  | .shadowsocksDirect | .shadowsocksUot => (targetAddress target).endpoint

/-- The server answers from the address it was asked to reach: a name in any case of
letters is that name, and a name that is an IP address stands for that address. -/
inductive SameAddress : Endpoint → Endpoint → Prop where
  | refl (endpoint : Endpoint) : SameAddress endpoint endpoint
  | name {name name' : String} (port : UInt16) : name.toLower = name'.toLower →
    (utf8 name'.toList).length ≤ 255 → SameAddress ⟨.domain name, port⟩ ⟨.domain name', port⟩
  | literal {name : String} {ip : IpAddr} (port : UInt16) : Host.ofText name = .ip ip →
    SameAddress ⟨.domain name, port⟩ ⟨.ip ip, port⟩

/-- Every reply of such a server is delivered under the key of the request. -/
def RepliesFindWaiter (readCursor : Bytes → Option (Address × Bytes)) (protocol : UdpProtocol)
    (target : TargetAddress) : Prop :=
  ∀ answered, SameAddress (askedEndpoint protocol target) answered →
    ∀ payload : Bytes, payload ≠ [] → payload.length < 65536 →
      ∀ stream : List Bytes, stream.flatten = replyPacket protocol answered payload →
        replyKey readCursor protocol stream = some (registeredKey protocol target)

/-- The text of the target agrees with what comes back: for VLESS and AnyTLS an IPv6
literal is spelled canonically up to the case of letters; for Shadowsocks it stands in
brackets and has no scope id. -/
def KeyAgrees (protocol : UdpProtocol) (target : TargetAddress) : Prop :=
  match protocol with
  | .vlessXudp | .anytlsUot =>
    ∀ ip, Host.ofText target.host = .ip (.v6 ip) →
      target.host.toLower = (String.ofList ip.text).toLower
  | .shadowsocksDirect | .shadowsocksUot =>
    match SocketAddr.parse (utf8 (authority target).toList) with
    | some (.v4 _ _) => True
    | some (.v6 _ scopeId _) => scopeId = 0
    | none => ∀ ip, Host.ofText target.host ≠ .ip (.v6 ip)

/-! ## What a reply is delivered under -/

/-- The key of an endpoint when it is read from a reply. -/
def endpointKey (protocol : UdpProtocol) (endpoint : Endpoint) : String :=
  match protocol with
  | .vlessXudp | .anytlsUot => packetTargetKey endpoint.host.text endpoint.port
  | .shadowsocksDirect | .shadowsocksUot => udpPendingKey (addressOf endpoint)

theorem decodeTarget_endpoint {endpoint : Endpoint} (hfits : endpoint.host.Fits) :
    decodeTarget ([0, 0, 2, 1, 2] ++ endpointBytes .vlessXudp endpoint) =
      .ok (some ⟨endpoint.host.text, endpoint.port⟩) := by
  have hmetadata := decodePortThenAddress_endpoint hfits []
  rw [List.append_nil] at hmetadata
  have hnetwork : 4 < ([0, 0, 2, 1, 2] ++ endpointBytes .vlessXudp endpoint).length ∧
      byteAt ([0, 0, 2, 1, 2] ++ endpointBytes .vlessXudp endpoint) 4 = 2 := by simp [byteAt]
  rw [decodeTarget, if_pos hnetwork]
  exact congrArg (Except.map fun r : TargetAddress × Nat => some r.1) hmetadata

theorem bytes_length_le {host : Host} (h : host.Fits) (codes : AddressCodes) :
    (host.bytes codes).length ≤ 257 := by
  cases host with
  | ip address => cases address <;> simp [Host.bytes, Ipv4Addr.size, Ipv6Addr.size]
  | domain name =>
    have hname : (utf8 name.toList).length ≤ 255 := h
    simp [Host.bytes]
    omega

theorem replyKey_vlessXudp (readCursor : Bytes → Option (Address × Bytes)) {endpoint : Endpoint}
    (hfits : endpoint.host.Fits) {payload : Bytes} (hne : payload ≠ [])
    (hpayload : payload.length < 65536) {stream : List Bytes}
    (h : stream.flatten = replyPacket .vlessXudp endpoint payload) :
    replyKey readCursor .vlessXudp stream = some (endpointKey .vlessXudp endpoint) := by
  have hmeta : ([0, 0, 2, 1, 2] ++ endpointBytes .vlessXudp endpoint).length < 65536 := by
    have hhost := bytes_length_le hfits vlessCodes
    simp [endpointBytes]
    omega
  have hpacket : packetOf ([0, 0, 2, 1, 2] ++ endpointBytes .vlessXudp endpoint) payload
      (some ⟨endpoint.host.text, endpoint.port⟩) =
        some ⟨some ⟨endpoint.host.text, endpoint.port⟩, payload⟩ := by
    simp [packetOf, byteAt, hne]
  have hturn := xudpTurn_xudpFrame (by simp) hmeta hpayload (decodeTarget_endpoint hfits)
    (List.prefix_append (replyPacket .vlessXudp endpoint payload) [])
  rw [if_neg (by exact Nat.lt_irrefl _), hpacket] at hturn
  rw [replyKey, h, takeXudpPacket_packet hturn]
  rfl

/-- A reply from an endpoint is delivered under the key of that endpoint, wherever the
stream of the replies is cut. -/
theorem replyKey_replyPacket {writeToBuf : Address → Bytes}
    {readCursor : Bytes → Option (Address × Bytes)} (hcrate : SocksAddresses writeToBuf readCursor)
    (protocol : UdpProtocol) {endpoint : Endpoint} (hfits : endpoint.host.Fits) {payload : Bytes}
    (hne : payload ≠ []) (hpayload : payload.length < 65536) {stream : List Bytes}
    (h : stream.flatten = replyPacket protocol endpoint payload) :
    replyKey readCursor protocol stream = some (endpointKey protocol endpoint) := by
  cases protocol with
  | vlessXudp => exact replyKey_vlessXudp readCursor hfits hne hpayload h
  | anytlsUot =>
    have hstream : stream.flatten = endpoint.host.bytes AnyTls.uotCodes ++
        (be16 endpoint.port.toNat ++ (be16 payload.length ++ (payload ++ []))) := by
      simpa [replyPacket, endpointBytes] using h
    obtain ⟨rest,hread,_⟩ := AnyTls.readUotPacket_endpoint hfits hpayload hstream
    rw [replyKey, hread]
    rfl
  | shadowsocksDirect =>
    have hread := hcrate.reads endpoint hfits payload
    rw [replyKey, h]
    simp only [replyPacket, endpointBytes, hread]
    rfl
  | shadowsocksUot =>
    have hstream : stream.flatten = endpoint.host.bytes socksCodes ++
        (be16 endpoint.port.toNat ++ (be16 payload.length ++ (payload ++ []))) := by
      simpa [replyPacket, endpointBytes, socksBytes] using h
    obtain ⟨rest,hread,_⟩ := Shadowsocks.readUotPacket_endpoint hfits hpayload hstream
    rw [replyKey, hread]
    rfl

theorem SameAddress.fits {asked answered : Endpoint} (h : SameAddress asked answered)
    (hfits : asked.host.Fits) : answered.host.Fits := by
  cases h with
  | refl => exact hfits
  | name port hlower hshort => exact hshort
  | literal port hip => trivial

/-- The waiter is found when the key of every endpoint that may answer is the one that
was registered. -/
theorem repliesFindWaiter_iff {writeToBuf : Address → Bytes}
    {readCursor : Bytes → Option (Address × Bytes)} (hcrate : SocksAddresses writeToBuf readCursor)
    {protocol : UdpProtocol} {target : TargetAddress}
    (hfits : (askedEndpoint protocol target).host.Fits) :
    RepliesFindWaiter readCursor protocol target ↔
      ∀ answered, SameAddress (askedEndpoint protocol target) answered →
        endpointKey protocol answered = registeredKey protocol target := by
  constructor
  · intro h answered hsame
    have hstream : [replyPacket protocol answered [0]].flatten = replyPacket protocol answered [0] :=
      List.append_nil _
    have hfound := h answered hsame [0] (by simp) (by simp) _ hstream
    rw [replyKey_replyPacket hcrate protocol (hsame.fits hfits) (by simp) (by simp) hstream] at hfound
    exact Option.some.inj hfound
  · intro h answered hsame payload hne hpayload stream hstream
    rw [replyKey_replyPacket hcrate protocol (hsame.fits hfits) hne hpayload hstream, h answered hsame]

/-! ## When the keys agree -/

theorem packetTargetKey_eq_iff (host host' : String) (port : UInt16) :
    packetTargetKey host port = packetTargetKey host' port ↔ host.toLower = host'.toLower := by
  rw [packetTargetKey, packetTargetKey, String.append_left_inj, String.append_left_inj]

/-- A name that is no IP address is asked for as itself. -/
theorem ofText_cases (text : String) :
    (∃ octets, ∃ h : parseIpv4 (utf8 text.toList) = some octets,
      Host.ofText text = .ip (.v4 ⟨octets, parseIpv4_length h⟩)) ∨
    (∃ octets, ∃ h : parseIpv6 (utf8 text.toList) = some octets,
      Host.ofText text = .ip (.v6 ⟨octets, parseIpv6_length h⟩)) ∨
    Host.ofText text = .domain text := by
  obtain h₄ | ⟨octets,h₄⟩ := (parseIpv4 (utf8 text.toList)).eq_none_or_eq_some
  · obtain h₆ | ⟨octets,h₆⟩ := (parseIpv6 (utf8 text.toList)).eq_none_or_eq_some
    · exact .inr (.inr (Host.ofText_domain h₄ h₆))
    · exact .inr (.inl ⟨octets,h₆,Host.ofText_ipv6 h₄ h₆⟩)
  · exact .inl ⟨octets,h₄,Host.ofText_ipv4 h₄⟩

/-- Where a name goes as an IP address if it is one, only the spelling of IPv6 addresses
can differ. -/
theorem textKey_agrees_iff (host : String) (port : UInt16) :
    (∀ answered, SameAddress ⟨.ofText host, port⟩ answered →
      packetTargetKey answered.host.text answered.port = packetTargetKey host port) ↔
      ∀ ip, Host.ofText host = .ip (.v6 ip) →
        host.toLower = (String.ofList ip.text).toLower := by
  obtain ⟨octets,h₄,hhost⟩ | ⟨octets,_,hhost⟩ | hhost := ofText_cases host
  · -- an IPv4 address has one spelling
    rw [hhost]
    apply iff_of_true
    · intro answered hsame
      cases hsame
      have htext := utf8_injective (parseIpv4_spelled h₄)
      simp [Host.text, IpAddr.text, ← htext]
    · intro ip hip
      cases hip
  · rw [hhost]
    constructor
    · intro h ip hip
      have hkey := h ⟨.ip (.v6 ip),port⟩ (hip ▸ .refl _)
      rw [packetTargetKey_eq_iff] at hkey
      exact hkey.symm
    · intro h answered hsame
      cases hsame
      exact (packetTargetKey_eq_iff _ _ port).mpr (h _ rfl).symm
  · rw [hhost]
    apply iff_of_true
    · intro answered hsame
      cases hsame with
      | refl => rfl
      | name _ hlower _ => exact (packetTargetKey_eq_iff _ _ port).mpr hlower.symm
      | literal _ hip => cases hhost.symm.trans hip
    · intro ip hip
      cases hip

theorem toLower_bracket {c : Char} (h : c.toLower = '[') : c = '[' := by
  by_cases hupper : 65 ≤ c.toNat ∧ c.toNat ≤ 90
  · have hletter := toNat_toLower hupper
    have hbracket : c.toLower.toNat = 91 := congrArg Char.toNat h
    omega
  · rwa [toLower_of_not_upper hupper] at h

/-- A literal without brackets is waited for under a key that no IPv6 address has. -/
theorem bareKey_ne {host : String} {ip ip' : Ipv6Addr} (h : Host.ofText host = .ip (.v6 ip))
    (port : UInt16) :
    udpPendingKey (.socketAddress (.v6 ip' 0 port)) ≠
      udpPendingKey (.domainNameAddress host port) := by
  intro hkey
  have hchars := congrArg String.toList hkey
  simp only [udpPendingKey, SocketAddr.text, String.toList_ofList, String.toList_append,
    toList_toLower] at hchars
  obtain ⟨octets,h₄,hhost⟩ | ⟨octets,h₆,hhost⟩ | hhost := ofText_cases host
  · cases hhost.symm.trans h
  · cases hlist : host.toList with
    | nil =>
      rw [hlist] at h₆
      cases h₆
    | cons c cs =>
      rw [hlist] at hchars h₆
      have hbracket : c.toLower = '[' := (List.cons.inj hchars).1.symm
      rw [toLower_bracket hbracket] at h₆
      cases (parseIpv6_bracket (utf8 cs)).symm.trans h₆
  · cases hhost.symm.trans h

theorem socketKey_agrees_iff (target : TargetAddress) :
    (∀ answered, SameAddress (targetAddress target).endpoint answered →
      udpPendingKey (addressOf answered) = udpPendingKey (targetAddress target)) ↔
      KeyAgrees .shadowsocksDirect target := by
  unfold KeyAgrees targetAddress
  cases hparse : SocketAddr.parse (utf8 (authority target).toList) with
  | some address =>
    cases address with
    | v4 ip port =>
      apply iff_of_true _ trivial
      intro answered hsame
      cases hsame
      rfl
    | v6 ip scopeId port =>
      constructor
      · intro h
        have hkey := h _ (.refl _)
        exact (text_scopeId_iff ip scopeId port).mp (String.ofList_injective hkey.symm)
      · rintro rfl answered hsame
        cases hsame
        rfl
  | none =>
    constructor
    · intro h ip hip
      exact bareKey_ne hip target.port (h _ (.literal target.port hip))
    · intro h answered hsame
      cases hsame with
      | refl => rfl
      | name _ hlower _ => exact (udpPendingKey_domain hlower target.port).symm
      | @literal _ ip _ hip =>
        cases ip with
        | v6 ip => exact absurd hip (h ip)
        | v4 ip =>
          -- the socket address would have been read
          obtain ⟨octets,h₄,_⟩ | ⟨octets,_,hhost⟩ | hhost := ofText_cases target.host
          · cases hparse.symm.trans (targetAddress_ipv4 h₄)
          · cases hhost.symm.trans hip
          · cases hhost.symm.trans hip

theorem askedEndpoint_fits (protocol : UdpProtocol) {target : TargetAddress}
    (h : HostFits target.hostBytes) : (askedEndpoint protocol target).host.Fits := by
  have htext := h.ofText_fits
  have hsocket : (targetAddress target).endpoint.host.Fits := by
    unfold targetAddress
    cases SocketAddr.parse (utf8 (authority target).toList) with
    | some address => cases address <;> exact trivial
    | none =>
      obtain ⟨octets,h₄,_⟩ | ⟨octets,h₆,_⟩ | hhost := ofText_cases target.host
      · exact parseIpv4_short h₄
      · exact parseIpv6_short h₆
      · rw [hhost] at htext
        exact htext
  cases protocol <;> assumption

theorem requestAddress_asked {writeToBuf : Address → Bytes}
    {readCursor : Bytes → Option (Address × Bytes)} (hcrate : SocksAddresses writeToBuf readCursor)
    (protocol : UdpProtocol) {target : TargetAddress} (h : HostFits target.hostBytes) :
    requestAddress writeToBuf protocol target =
      .ok (endpointBytes protocol (askedEndpoint protocol target)) := by
  cases protocol with
  | vlessXudp =>
    obtain ⟨address,haddress⟩ := (encodeAddress_ok_iff _).mpr h
    rw [requestAddress, encodePortThenAddress, haddress, (encodeAddress_bytes haddress).1]
    rfl
  | anytlsUot => exact AnyTls.encodeUotAddress_ok h
  | shadowsocksDirect | shadowsocksUot =>
    have hwrites := hcrate.writes (targetAddress target) (askedEndpoint_fits .shadowsocksDirect h)
    rw [requestAddress, hwrites]
    rfl

theorem repliesFindWaiter_iff_keyAgrees {writeToBuf : Address → Bytes}
    {readCursor : Bytes → Option (Address × Bytes)} (hcrate : SocksAddresses writeToBuf readCursor)
    (protocol : UdpProtocol) {target : TargetAddress} (h : HostFits target.hostBytes) :
    RepliesFindWaiter readCursor protocol target ↔ KeyAgrees protocol target := by
  rw [repliesFindWaiter_iff hcrate (askedEndpoint_fits protocol h)]
  cases protocol with
  | vlessXudp | anytlsUot => exact textKey_agrees_iff target.host target.port
  | shadowsocksDirect | shadowsocksUot => exact socketKey_agrees_iff target

/-- The server is asked for the address that the text names, and its replies find the
waiter exactly where the text agrees with the address as it comes back. -/
theorem replies_find_waiter_iff {writeToBuf : Address → Bytes}
    {readCursor : Bytes → Option (Address × Bytes)} (hcrate : SocksAddresses writeToBuf readCursor)
    (protocol : UdpProtocol) {target : TargetAddress} (h : HostFits target.hostBytes) :
    requestAddress writeToBuf protocol target =
        .ok (endpointBytes protocol (askedEndpoint protocol target)) ∧
      (RepliesFindWaiter readCursor protocol target ↔ KeyAgrees protocol target) :=
  ⟨requestAddress_asked hcrate protocol h,repliesFindWaiter_iff_keyAgrees hcrate protocol h⟩

/-! ## SOCKS5 addresses as they are -/

def writeSocks (address : Address) : Bytes := socksBytes address.endpoint

def readSocks (bytes : Bytes) : Option (Address × Bytes) :=
  match readHost socksCodes (fun _ => "unsupported address type") [bytes] with
  | .error _ => none
  | .ok (host, stream) =>
    match readU16 stream with
    | .error _ => none
    | .ok (port, stream) => some (addressOf ⟨host, UInt16.ofNat port⟩, stream.flatten)

theorem socksAddresses : SocksAddresses writeSocks readSocks where
  writes _ _ := rfl
  reads endpoint hfits rest := by
    have hbytes : [socksBytes endpoint ++ rest].flatten =
        endpoint.host.bytes socksCodes ++ (be16 endpoint.port.toNat ++ rest) := by
      simp [socksBytes]
    obtain ⟨next,hhost,hnext⟩ := readHost_bytes socksCodes (fun _ => "unsupported address type")
      hfits hbytes
    obtain ⟨next',hport,hnext'⟩ := readU16_be16 endpoint.port.toNat_lt hnext
    rw [readSocks, hhost]
    simp only [hport, hnext', UInt16.ofNat_toNat]

theorem replies_find_waiter_sample :
    requestAddress writeSocks .shadowsocksUot ⟨"[2001:DB8::1]", 53⟩ =
        .ok (endpointBytes .shadowsocksUot
          (askedEndpoint .shadowsocksUot ⟨"[2001:DB8::1]", 53⟩)) ∧
      (RepliesFindWaiter readSocks .shadowsocksUot ⟨"[2001:DB8::1]", 53⟩ ↔
        KeyAgrees .shadowsocksUot ⟨"[2001:DB8::1]", 53⟩) :=
  replies_find_waiter_iff socksAddresses .shadowsocksUot (by decide +kernel)

def sampleIp : Ipv6Addr := ⟨[0x20, 0x01, 0x0d, 0xb8, 0, 0, 0, 0, 0, 0, 0, 0, 0, 0, 0, 1], rfl⟩

/-- An address that is not written canonically is waited for under a text that no reply
has; for Shadowsocks it is any address without brackets. -/
theorem spelled_out_target_waits :
    HostFits (TargetAddress.hostBytes ⟨"2001:DB8:0:0:0:0:0:1", 53⟩) ∧
      HostFits (TargetAddress.hostBytes ⟨"2001:db8::1", 53⟩) ∧
      ¬ RepliesFindWaiter readSocks .vlessXudp ⟨"2001:DB8:0:0:0:0:0:1", 53⟩ ∧
      ¬ RepliesFindWaiter readSocks .anytlsUot ⟨"2001:DB8:0:0:0:0:0:1", 53⟩ ∧
      ¬ RepliesFindWaiter readSocks .shadowsocksDirect ⟨"2001:db8::1", 53⟩ ∧
      ¬ RepliesFindWaiter readSocks .shadowsocksUot ⟨"2001:db8::1", 53⟩ := by
  have hlong : HostFits (TargetAddress.hostBytes ⟨"2001:DB8:0:0:0:0:0:1", 53⟩) := by
    decide +kernel
  have hbare : HostFits (TargetAddress.hostBytes ⟨"2001:db8::1", 53⟩) := by decide +kernel
  have hip : Host.ofText "2001:DB8:0:0:0:0:0:1" = .ip (.v6 sampleIp) := by decide +kernel
  have hip' : Host.ofText "2001:db8::1" = .ip (.v6 sampleIp) := by decide +kernel
  have hkey : ¬ "2001:DB8:0:0:0:0:0:1".toLower = (String.ofList sampleIp.text).toLower := by
    decide +kernel
  have hparse : SocketAddr.parse (utf8 (authority ⟨"2001:db8::1", 53⟩).toList) = none := by
    decide +kernel
  have hsocket : ∀ protocol ∈ [UdpProtocol.shadowsocksDirect, .shadowsocksUot],
      ¬ KeyAgrees protocol ⟨"2001:db8::1", 53⟩ := by
    intro protocol hprotocol
    simp only [List.mem_cons, List.not_mem_nil, or_false] at hprotocol
    obtain rfl | rfl := hprotocol <;> rw [KeyAgrees, hparse] <;> exact fun h => h sampleIp hip'
  have hwaits {protocol target} (h : HostFits (TargetAddress.hostBytes target))
      (hkey : ¬ KeyAgrees protocol target) : ¬ RepliesFindWaiter readSocks protocol target :=
    fun hfound => hkey ((repliesFindWaiter_iff_keyAgrees socksAddresses protocol h).mp hfound)
  exact ⟨hlong,hbare,hwaits hlong fun h => hkey (h sampleIp hip),
    hwaits hlong fun h => hkey (h sampleIp hip),hwaits hbare (hsocket _ (by simp)),
    hwaits hbare (hsocket _ (by simp))⟩

end AtlasKernel.PacketSession
