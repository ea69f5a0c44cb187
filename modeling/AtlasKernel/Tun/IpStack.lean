import AtlasKernel.Lib.Net

/-! The packet parser: addresses from the IP header, ports from the transport header.
Source: `neoncore-ip-stack`. -/
namespace AtlasKernel.Tun
open AtlasKernel.Lib

inductive TransportProtocol where
  | tcp | udp | icmp | icmpv6
  | other (value : UInt8)
deriving DecidableEq, Repr

structure Ipv4Packet where
  source : Ipv4Addr
  destination : Ipv4Addr
  protocol : TransportProtocol
  payload : Bytes
deriving DecidableEq, Repr

structure Ipv6Packet where
  source : Ipv6Addr
  destination : Ipv6Addr
  nextHeader : TransportProtocol
  payload : Bytes
deriving DecidableEq, Repr

inductive IpPacket where
  | v4 (ip : Ipv4Packet)
  | v6 (ip : Ipv6Packet)
deriving DecidableEq, Repr

structure TcpFlags where
  fin : Bool
  syn : Bool
  rst : Bool
  psh : Bool
  ack : Bool
  urg : Bool
deriving DecidableEq, Repr

structure TcpSegment where
  sourcePort : Nat
  destinationPort : Nat
  flags : TcpFlags
  payload : Bytes
deriving DecidableEq, Repr

structure UdpDatagram where
  sourcePort : Nat
  destinationPort : Nat
  payload : Bytes
deriving DecidableEq, Repr

inductive TransportPacket where
  | tcp (segment : TcpSegment)
  | udp (datagram : UdpDatagram)
deriving DecidableEq, Repr

structure SocketEndpoint where
  address : IpAddr
  port : Nat
deriving DecidableEq, Repr

inductive FlowProtocol where
  | tcp | udp
deriving DecidableEq, Repr

structure Flow where
  source : SocketEndpoint
  destination : SocketEndpoint
  protocol : FlowProtocol
deriving DecidableEq, Repr

inductive IpStackError where
  | packetTooShort
  | unsupportedIpVersion (version : UInt8)
  | invalidIpv4Header
  | invalidIpv6Header
  | unsupportedTransportProtocol
  | invalidTransportHeader
deriving DecidableEq, Repr

def protocolFromNumber (value : UInt8) : TransportProtocol :=
  if value = 1 then .icmp
  else if value = 6 then .tcp
  else if value = 17 then .udp
  else if value = 58 then .icmpv6
  else .other value

/-- `packet[i]` to `packet[i + n - 1]` -/
def octetsAt (packet : Bytes) (i n : Nat) : Bytes := (List.range n).map fun k => byteAt packet (i + k)

@[simp] theorem octetsAt_length (packet : Bytes) (i n : Nat) : (octetsAt packet i n).length = n := by
  simp [octetsAt]

/-- `(packet[0] & 0x0f) as usize * 4` -/
def ihl (packet : Bytes) : Nat := (byteAt packet 0).toNat % 16 * 4

def totalLen (packet : Bytes) : Nat := be16At packet 2

def parseIpv4Packet (packet : Bytes) : Except IpStackError Ipv4Packet :=
  if packet.length < 20 then .error .packetTooShort
  else if ihl packet < 20 ∨ packet.length < ihl packet then .error .invalidIpv4Header
  else if totalLen packet < ihl packet ∨ packet.length < totalLen packet then
    .error .invalidIpv4Header
  else .ok
    { source := ⟨octetsAt packet 12 4, octetsAt_length ..⟩
      destination := ⟨octetsAt packet 16 4, octetsAt_length ..⟩
      protocol := protocolFromNumber (byteAt packet 9)
      payload := slice packet (ihl packet) (totalLen packet) }

def parseIpv6Packet (packet : Bytes) : Except IpStackError Ipv6Packet :=
  if packet.length < 40 then .error .packetTooShort
  else
    let payloadLen := be16At packet 4
    if packet.length < 40 + payloadLen then .error .invalidIpv6Header
    else .ok
      { source := ⟨octetsAt packet 8 16, octetsAt_length ..⟩
        destination := ⟨octetsAt packet 24 16, octetsAt_length ..⟩
        nextHeader := protocolFromNumber (byteAt packet 6)
        payload := slice packet 40 (40 + payloadLen) }

def parseIpPacket (packet : Bytes) : Except IpStackError IpPacket :=
  match packet with
  | [] => .error .packetTooShort
  | first :: _ =>
    let version := first >>> 4
    if version = 4 then (parseIpv4Packet packet).map .v4
    else if version = 6 then (parseIpv6Packet packet).map .v6
    else .error (.unsupportedIpVersion version)

/-- `((payload[12] >> 4) as usize) * 4` -/
def dataOffset (payload : Bytes) : Nat := (byteAt payload 12).toNat / 16 * 4

def parseTcp (payload : Bytes) : Except IpStackError TcpSegment :=
  if payload.length < 20 then .error .invalidTransportHeader
  else if dataOffset payload < 20 ∨ payload.length < dataOffset payload then
    .error .invalidTransportHeader
  else
    let flag (mask : UInt8) : Bool := byteAt payload 13 &&& mask ≠ 0
    .ok
      { sourcePort := be16At payload 0
        destinationPort := be16At payload 2
        flags := ⟨flag 0x01, flag 0x02, flag 0x04, flag 0x08, flag 0x10, flag 0x20⟩
        payload := payload.drop (dataOffset payload) }

def udpLen (payload : Bytes) : Nat := be16At payload 4

def parseUdp (payload : Bytes) : Except IpStackError UdpDatagram :=
  if payload.length < 8 then .error .invalidTransportHeader
  else if udpLen payload < 8 ∨ payload.length < udpLen payload then .error .invalidTransportHeader
  else .ok
    { sourcePort := be16At payload 0
      destinationPort := be16At payload 2
      payload := slice payload 8 (udpLen payload) }

def parseTransport (protocol : TransportProtocol) (payload : Bytes) :
    Except IpStackError TransportPacket :=
  match protocol with
  | .tcp => (parseTcp payload).map .tcp
  | .udp => (parseUdp payload).map .udp
  | _ => .error .unsupportedTransportProtocol

/-- The four arms of `flow_from_packet` differ in the addresses and in the transport. -/
def flowOf (source destination : IpAddr) : TransportPacket → Flow
  | .tcp tcp => ⟨⟨source, tcp.sourcePort⟩, ⟨destination, tcp.destinationPort⟩, .tcp⟩
  | .udp udp => ⟨⟨source, udp.sourcePort⟩, ⟨destination, udp.destinationPort⟩, .udp⟩

def flowFromPacket (packet : Bytes) : Except IpStackError Flow :=
  match parseIpPacket packet with
  | .error err => .error err
  | .ok (.v4 ip) =>
    (parseTransport ip.protocol ip.payload).map (flowOf (.v4 ip.source) (.v4 ip.destination))
  | .ok (.v6 ip) =>
    (parseTransport ip.nextHeader ip.payload).map (flowOf (.v6 ip.source) (.v6 ip.destination))

/-! ## What is accepted -/

/-- The low thirteen bits of the flags field: where the payload of this packet stands in
the datagram it is a fragment of. -/
def fragmentOffset (packet : Bytes) : Nat := be16At packet 6 % 8192

def isIpv4 (packet : Bytes) : Bool := byteAt packet 0 >>> 4 = 4

/-- The payload of the IP packet, where the header is valid. -/
def ipv4Payload (packet : Bytes) : Bytes := slice packet (ihl packet) (totalLen packet)

structure ValidIpv4Header (packet : Bytes) : Prop where
  header : 20 ≤ ihl packet
  total : ihl packet ≤ totalLen packet
  there : totalLen packet ≤ packet.length

structure TcpShaped (payload : Bytes) : Prop where
  header : 20 ≤ dataOffset payload
  there : dataOffset payload ≤ payload.length

structure UdpShaped (payload : Bytes) : Prop where
  header : 8 ≤ udpLen payload
  there : udpLen payload ≤ payload.length

theorem parseIpv4Packet_ok_iff (packet : Bytes) :
    (∃ ip, parseIpv4Packet packet = .ok ip) ↔ ValidIpv4Header packet := by
  unfold parseIpv4Packet
  constructor
  · rintro ⟨ip,h⟩
    split at h
    · cases h
    · split at h
      · cases h
      · split at h
        · cases h
        · exact ⟨by omega,by omega,by omega⟩
  · rintro ⟨hheader,htotal,hthere⟩
    rw [if_neg (by omega), if_neg (by omega), if_neg (by omega)]
    exact ⟨_,rfl⟩

theorem parseIpv4Packet_fields {packet : Bytes} {ip : Ipv4Packet}
    (h : parseIpv4Packet packet = .ok ip) :
    ip.protocol = protocolFromNumber (byteAt packet 9) ∧ ip.payload = ipv4Payload packet := by
  unfold parseIpv4Packet at h
  split at h
  · cases h
  · split at h
    · cases h
    · split at h
      · cases h
      · cases h
        exact ⟨rfl,rfl⟩

theorem parseTcp_ok_iff (payload : Bytes) :
    (∃ segment, parseTcp payload = .ok segment) ↔ TcpShaped payload := by
  unfold parseTcp
  constructor
  · rintro ⟨segment,h⟩
    split at h
    · cases h
    · split at h
      · cases h
      · exact ⟨by omega,by omega⟩
  · rintro ⟨hheader,hthere⟩
    rw [if_neg (by omega), if_neg (by omega)]
    exact ⟨_,rfl⟩

theorem parseUdp_ok_iff (payload : Bytes) :
    (∃ datagram, parseUdp payload = .ok datagram) ↔ UdpShaped payload := by
  unfold parseUdp
  constructor
  · rintro ⟨datagram,h⟩
    split at h
    · cases h
    · split at h
      · cases h
      · exact ⟨by omega,by omega⟩
  · rintro ⟨hheader,hthere⟩
    rw [if_neg (by omega), if_neg (by omega)]
    exact ⟨_,rfl⟩

theorem protocolFromNumber_tcp (value : UInt8) : protocolFromNumber value = .tcp ↔ value = 6 := by
  unfold protocolFromNumber
  grind

theorem protocolFromNumber_udp (value : UInt8) :
    protocolFromNumber value = .udp ↔ value = 17 := by
  unfold protocolFromNumber
  grind

theorem map_ok_iff {ε α β : Type} (f : α → β) (r : Except ε α) :
    (∃ b, r.map f = .ok b) ↔ ∃ a, r = .ok a := by
  cases r with
  | error err => simp [Except.map]
  | ok a => simp [Except.map]

theorem parseTransport_ok_iff (protocol : TransportProtocol) (payload : Bytes) :
    (∃ transport, parseTransport protocol payload = .ok transport) ↔
      protocol = .tcp ∧ TcpShaped payload ∨ protocol = .udp ∧ UdpShaped payload := by
  cases protocol with
  | tcp => simp only [parseTransport, map_ok_iff, parseTcp_ok_iff]; simp
  | udp => simp only [parseTransport, map_ok_iff, parseUdp_ok_iff]; simp
  | icmp => simp [parseTransport]
  | icmpv6 => simp [parseTransport]
  | other value => simp [parseTransport]

/-- The payload of the IP packet passes for the beginning of a transport packet. -/
def TransportShaped (packet : Bytes) : Prop :=
  ValidIpv4Header packet ∧
    (byteAt packet 9 = 6 ∧ TcpShaped (ipv4Payload packet) ∨
      byteAt packet 9 = 17 ∧ UdpShaped (ipv4Payload packet))

theorem parseIpPacket_ipv4 {packet : Bytes} (h : isIpv4 packet) :
    parseIpPacket packet = (parseIpv4Packet packet).map .v4 := by
  cases packet with
  | nil => simp [isIpv4, byteAt] at h
  | cons first rest =>
    have hversion : first >>> 4 = 4 := of_decide_eq_true h
    simp only [parseIpPacket, if_pos hversion]

theorem flowFromPacket_ipv4 {packet : Bytes} (h : isIpv4 packet) :
    flowFromPacket packet =
      match parseIpv4Packet packet with
      | .error err => .error err
      | .ok ip =>
        (parseTransport ip.protocol ip.payload).map
          (flowOf (.v4 ip.source) (.v4 ip.destination)) := by
  rw [flowFromPacket, parseIpPacket_ipv4 h]
  cases parseIpv4Packet packet with
  | error err => rfl
  | ok ip => rfl

/-- A flow is found exactly where the headers pass; the fragment offset plays no part. -/
theorem flowFromPacket_ok_iff {packet : Bytes} (h : isIpv4 packet) :
    (∃ flow, flowFromPacket packet = .ok flow) ↔ TransportShaped packet := by
  have hvalid := parseIpv4Packet_ok_iff packet
  rw [flowFromPacket_ipv4 h, TransportShaped]
  cases hip : parseIpv4Packet packet with
  | error err =>
    rw [hip] at hvalid
    simpa using fun hheader => absurd (hvalid.mpr hheader) (by simp)
  | ok ip =>
    obtain ⟨hprotocol,hpayload⟩ := parseIpv4Packet_fields hip
    simp only [map_ok_iff, parseTransport_ok_iff, hprotocol, hpayload, protocolFromNumber_tcp,
      protocolFromNumber_udp]
    exact (and_iff_right (hvalid.mp ⟨ip,hip⟩)).symm

/-- The ports of a flow are the first two fields of a payload. -/
def ReadsPortsFrom (payload : Bytes) (flow : Flow) : Prop :=
  flow.source.port = be16At payload 0 ∧ flow.destination.port = be16At payload 2

instance (payload : Bytes) (flow : Flow) : Decidable (ReadsPortsFrom payload flow) :=
  inferInstanceAs (Decidable (_ ∧ _))

theorem parseTcp_ports {payload : Bytes} {segment : TcpSegment}
    (h : parseTcp payload = .ok segment) :
    segment.sourcePort = be16At payload 0 ∧ segment.destinationPort = be16At payload 2 := by
  unfold parseTcp at h
  split at h
  · cases h
  · split at h
    · cases h
    · cases h
      exact ⟨rfl,rfl⟩

theorem parseUdp_ports {payload : Bytes} {datagram : UdpDatagram}
    (h : parseUdp payload = .ok datagram) :
    datagram.sourcePort = be16At payload 0 ∧ datagram.destinationPort = be16At payload 2 := by
  unfold parseUdp at h
  split at h
  · cases h
  · split at h
    · cases h
    · cases h
      exact ⟨rfl,rfl⟩

theorem parseTransport_ports {protocol : TransportProtocol} {payload : Bytes}
    {transport : TransportPacket} (h : parseTransport protocol payload = .ok transport)
    (source destination : IpAddr) :
    ReadsPortsFrom payload (flowOf source destination transport) := by
  cases protocol with
  | tcp =>
    rw [parseTransport] at h
    cases htcp : parseTcp payload with
    | error err => rw [htcp] at h; cases h
    | ok segment => rw [htcp] at h; cases h; exact parseTcp_ports htcp
  | udp =>
    rw [parseTransport] at h
    cases hudp : parseUdp payload with
    | error err => rw [hudp] at h; cases h
    | ok datagram => rw [hudp] at h; cases h; exact parseUdp_ports hudp
  | icmp => cases h
  | icmpv6 => cases h
  | other value => cases h

/-- Whatever flow is found in an IPv4 packet, its ports come out of the payload. -/
theorem flowFromPacket_ports {packet : Bytes} {flow : Flow} (hv4 : isIpv4 packet)
    (h : flowFromPacket packet = .ok flow) : ReadsPortsFrom (ipv4Payload packet) flow := by
  rw [flowFromPacket_ipv4 hv4] at h
  cases hip : parseIpv4Packet packet with
  | error err =>
    rw [hip] at h
    cases h
  | ok ip =>
    simp only [hip] at h
    rw [← (parseIpv4Packet_fields hip).2]
    cases htransport : parseTransport ip.protocol ip.payload with
    | error err =>
      rw [htransport] at h
      cases h
    | ok transport =>
      rw [htransport] at h
      cases h
      exact parseTransport_ports htransport _ _

end AtlasKernel.Tun
