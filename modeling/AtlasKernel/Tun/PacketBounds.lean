import AtlasKernel.Lib.Checked
import AtlasKernel.Lib.Subslice
import AtlasKernel.Tun.IpStack

/-! The packet parser with every index and every slice checked: none of them is out of bounds,
and what is read stands where the headers say. Source: `neoncore-ip-stack`. -/
namespace AtlasKernel.Tun
open AtlasKernel.Lib

theorem octets_four (a b c d : UInt8) : [a, b, c, d].length = 4 := rfl

/-- `Ipv4Addr::new(packet[i], packet[i + 1], packet[i + 2], packet[i + 3])` -/
def ipv4At? (packet : Bytes) (i : Nat) : Option Ipv4Addr := do
  let a ← byteAt? packet i
  let b ← byteAt? packet (i + 1)
  let c ← byteAt? packet (i + 2)
  let d ← byteAt? packet (i + 3)
  return ⟨[a, b, c, d], octets_four a b c d⟩

/-- `Ipv6Addr::from(<[u8; 16]>::try_from(octets).unwrap())` -/
def ipv6Of? (octets : Bytes) : Option Ipv6Addr :=
  if h : octets.length = 16 then some ⟨octets, h⟩ else none

def parseIpv4Packet? (packet : Bytes) : Option (Except IpStackError Ipv4Packet) :=
  if packet.length < 20 then some (.error .packetTooShort)
  else do
    let ihl := ((← byteAt? packet 0) &&& 0x0f).toNat * 4
    if ihl < 20 ∨ packet.length < ihl then return .error .invalidIpv4Header
    else
      let totalLen ← be16At? packet 2
      if totalLen < ihl ∨ packet.length < totalLen then return .error .invalidIpv4Header
      else
        return .ok
          { source := ← ipv4At? packet 12
            destination := ← ipv4At? packet 16
            protocol := protocolFromNumber (← byteAt? packet 9)
            payload := ← slice? packet ihl totalLen }

def parseIpv6Packet? (packet : Bytes) : Option (Except IpStackError Ipv6Packet) :=
  if packet.length < 40 then some (.error .packetTooShort)
  else do
    let payloadLen ← be16At? packet 4
    if packet.length < 40 + payloadLen then return .error .invalidIpv6Header
    else
      return .ok
        { source := ← ipv6Of? (← slice? packet 8 24)
          destination := ← ipv6Of? (← slice? packet 24 40)
          nextHeader := protocolFromNumber (← byteAt? packet 6)
          payload := ← slice? packet 40 (40 + payloadLen) }

def parseIpPacket? (packet : Bytes) : Option (Except IpStackError IpPacket) :=
  match packet with
  | [] => some (.error .packetTooShort)
  | first :: _ => do
    let version := first >>> 4
    if version = 4 then return (← parseIpv4Packet? packet).map .v4
    else if version = 6 then return (← parseIpv6Packet? packet).map .v6
    else return .error (.unsupportedIpVersion version)

def parseTcp? (payload : Bytes) : Option (Except IpStackError TcpSegment) :=
  if payload.length < 20 then some (.error .invalidTransportHeader)
  else do
    let dataOffset := ((← byteAt? payload 12) >>> 4).toNat * 4
    if dataOffset < 20 ∨ payload.length < dataOffset then return .error .invalidTransportHeader
    else
      let flagByte ← byteAt? payload 13
      let flag (mask : UInt8) : Bool := flagByte &&& mask ≠ 0
      return .ok
        { sourcePort := ← be16At? payload 0
          destinationPort := ← be16At? payload 2
          flags := ⟨flag 0x01, flag 0x02, flag 0x04, flag 0x08, flag 0x10, flag 0x20⟩
          payload := ← sliceFrom? payload dataOffset }

def parseUdp? (payload : Bytes) : Option (Except IpStackError UdpDatagram) :=
  if payload.length < 8 then some (.error .invalidTransportHeader)
  else do
    let len ← be16At? payload 4
    if len < 8 ∨ payload.length < len then return .error .invalidTransportHeader
    else
      return .ok
        { sourcePort := ← be16At? payload 0
          destinationPort := ← be16At? payload 2
          payload := ← slice? payload 8 len }

def parseTransport? (protocol : TransportProtocol) (payload : Bytes) :
    Option (Except IpStackError TransportPacket) := do
  match protocol with
  | .tcp => return (← parseTcp? payload).map .tcp
  | .udp => return (← parseUdp? payload).map .udp
  | _ => return .error .unsupportedTransportProtocol

def flowFromPacket? (packet : Bytes) : Option (Except IpStackError Flow) := do
  match ← parseIpPacket? packet with
  | .error err => return .error err
  | .ok (.v4 ip) =>
    return (← parseTransport? ip.protocol ip.payload).map (flowOf (.v4 ip.source) (.v4 ip.destination))
  | .ok (.v6 ip) =>
    return (← parseTransport? ip.nextHeader ip.payload).map
      (flowOf (.v6 ip.source) (.v6 ip.destination))

/-! ## Nothing is read out of bounds -/

theorem ihl_eq (packet : Bytes) : (byteAt packet 0 &&& 0x0f).toNat * 4 = ihl packet := by
  have hmask : (byteAt packet 0 &&& 0x0f).toNat = (byteAt packet 0).toNat % 16 := by
    rw [UInt8.toNat_and]
    exact Nat.and_two_pow_sub_one_eq_mod _ 4
  rw [ihl, hmask]

theorem dataOffset_eq (payload : Bytes) :
    (byteAt payload 12 >>> 4).toNat * 4 = dataOffset payload := by
  have hshift : (byteAt payload 12 >>> 4).toNat = (byteAt payload 12).toNat / 16 := by
    rw [UInt8.toNat_shiftRight]
    exact Nat.shiftRight_eq_div_pow _ 4
  rw [dataOffset, hshift]

theorem octetsAt_eq {packet : Bytes} {i n : Nat} (h : i + n ≤ packet.length) :
    octetsAt packet i n = slice packet i (i + n) := by
  have hrest : n ≤ (packet.drop i).length := by
    rw [List.length_drop]
    omega
  have hbyte : ∀ k, byteAt (packet.drop i) k = byteAt packet (i + k) := by
    intro k
    simp only [byteAt, List.getD_eq_getElem?_getD, List.getElem?_drop]
  rw [slice, List.drop_take, Nat.add_sub_cancel_left, take_eq_map_byteAt hrest]
  exact List.map_congr_left fun k _ => (hbyte k).symm

theorem ipv4At?_eq {packet : Bytes} {i : Nat} (h : i + 4 ≤ packet.length) :
    ipv4At? packet i = some ⟨octetsAt packet i 4, octetsAt_length ..⟩ := by
  simp only [ipv4At?, byteAt?_eq (show i < packet.length by omega),
    byteAt?_eq (show i + 1 < packet.length by omega),
    byteAt?_eq (show i + 2 < packet.length by omega),
    byteAt?_eq (show i + 3 < packet.length by omega), Option.bind_eq_bind, Option.bind_some]
  rfl

theorem ipv6Of?_eq {packet : Bytes} {i : Nat} (h : i + 16 ≤ packet.length) :
    ipv6Of? (slice packet i (i + 16)) = some ⟨octetsAt packet i 16, octetsAt_length ..⟩ := by
  simp only [← octetsAt_eq h, ipv6Of?, octetsAt_length, dif_pos]

theorem parseIpv4Packet?_eq (packet : Bytes) :
    parseIpv4Packet? packet = some (parseIpv4Packet packet) := by
  unfold parseIpv4Packet? parseIpv4Packet
  by_cases hshort : packet.length < 20
  · simp only [if_pos hshort]
  · simp only [if_neg hshort, byteAt?_eq (show 0 < packet.length by omega), Option.bind_eq_bind,
      Option.bind_some, ihl_eq]
    by_cases hheader : ihl packet < 20 ∨ packet.length < ihl packet
    · simp only [if_pos hheader, Option.pure_def]
    · have htotalLen : be16At? packet 2 = some (totalLen packet) := be16At?_eq (by omega)
      simp only [if_neg hheader, htotalLen, Option.bind_some]
      by_cases htotal : totalLen packet < ihl packet ∨ packet.length < totalLen packet
      · simp only [if_pos htotal, Option.pure_def]
      · simp only [if_neg htotal, ipv4At?_eq (show 12 + 4 ≤ packet.length by omega),
          ipv4At?_eq (show 16 + 4 ≤ packet.length by omega),
          byteAt?_eq (show 9 < packet.length by omega),
          slice?_eq (show ihl packet ≤ totalLen packet by omega)
            (show totalLen packet ≤ packet.length by omega), Option.bind_some, Option.pure_def]

theorem parseIpv6Packet?_eq (packet : Bytes) :
    parseIpv6Packet? packet = some (parseIpv6Packet packet) := by
  unfold parseIpv6Packet? parseIpv6Packet
  by_cases hshort : packet.length < 40
  · simp only [if_pos hshort]
  · simp only [if_neg hshort, be16At?_eq (show 4 + 1 < packet.length by omega),
      Option.bind_eq_bind, Option.bind_some]
    by_cases hpayload : packet.length < 40 + be16At packet 4
    · simp only [if_pos hpayload, Option.pure_def]
    · simp only [if_neg hpayload, slice?_eq (show 8 ≤ 24 by omega) (show 24 ≤ packet.length by omega),
        slice?_eq (show 24 ≤ 40 by omega) (show 40 ≤ packet.length by omega),
        ipv6Of?_eq (show 8 + 16 ≤ packet.length by omega),
        ipv6Of?_eq (show 24 + 16 ≤ packet.length by omega),
        byteAt?_eq (show 6 < packet.length by omega),
        slice?_eq (Nat.le_add_right 40 (be16At packet 4))
          (show 40 + be16At packet 4 ≤ packet.length by omega), Option.bind_some, Option.pure_def]

theorem parseIpPacket?_eq (packet : Bytes) :
    parseIpPacket? packet = some (parseIpPacket packet) := by
  cases packet with
  | nil => rfl
  | cons first rest =>
    simp only [parseIpPacket?, parseIpPacket, parseIpv4Packet?_eq, parseIpv6Packet?_eq,
      Option.bind_eq_bind, Option.bind_some, Option.pure_def]
    split_ifs <;> rfl

theorem parseTcp?_eq (payload : Bytes) : parseTcp? payload = some (parseTcp payload) := by
  unfold parseTcp? parseTcp
  by_cases hshort : payload.length < 20
  · simp only [if_pos hshort]
  · simp only [if_neg hshort, byteAt?_eq (show 12 < payload.length by omega), Option.bind_eq_bind,
      Option.bind_some, dataOffset_eq]
    by_cases hheader : dataOffset payload < 20 ∨ payload.length < dataOffset payload
    · simp only [if_pos hheader, Option.pure_def]
    · simp only [if_neg hheader, byteAt?_eq (show 13 < payload.length by omega),
        be16At?_eq (show 0 + 1 < payload.length by omega),
        be16At?_eq (show 2 + 1 < payload.length by omega),
        sliceFrom?_eq (show dataOffset payload ≤ payload.length by omega), Option.bind_some,
        Option.pure_def]

theorem parseUdp?_eq (payload : Bytes) : parseUdp? payload = some (parseUdp payload) := by
  unfold parseUdp? parseUdp
  by_cases hshort : payload.length < 8
  · simp only [if_pos hshort]
  · have hudpLen : be16At? payload 4 = some (udpLen payload) := be16At?_eq (by omega)
    simp only [if_neg hshort, hudpLen, Option.bind_eq_bind, Option.bind_some]
    by_cases hlen : udpLen payload < 8 ∨ payload.length < udpLen payload
    · simp only [if_pos hlen, Option.pure_def]
    · simp only [if_neg hlen, be16At?_eq (show 0 + 1 < payload.length by omega),
        be16At?_eq (show 2 + 1 < payload.length by omega),
        slice?_eq (show 8 ≤ udpLen payload by omega)
          (show udpLen payload ≤ payload.length by omega), Option.bind_some, Option.pure_def]

theorem parseTransport?_eq (protocol : TransportProtocol) (payload : Bytes) :
    parseTransport? protocol payload = some (parseTransport protocol payload) := by
  cases protocol <;>
    simp only [parseTransport?, parseTransport, parseTcp?_eq, parseUdp?_eq, Option.bind_eq_bind,
      Option.bind_some, Option.pure_def]

theorem flowFromPacket?_eq (packet : Bytes) :
    flowFromPacket? packet = some (flowFromPacket packet) := by
  simp only [flowFromPacket?, flowFromPacket, parseIpPacket?_eq, Option.bind_eq_bind,
    Option.bind_some, parseTransport?_eq, Option.pure_def]
  cases parseIpPacket packet with
  | error err => rfl
  | ok ip => cases ip <;> rfl

/-! ## What is read stands where the headers say -/

/-- `u16::from_be_bytes([packet[4], packet[5]])` -/
def payloadLen (packet : Bytes) : Nat := be16At packet 4

structure Ipv4Exact (packet : Bytes) (ip : Ipv4Packet) : Prop where
  version : byteAt packet 0 >>> 4 = 4
  header : 20 ≤ ihl packet
  source : Subslice packet 12 16 ip.source.octets
  destination : Subslice packet 16 20 ip.destination.octets
  protocol : ip.protocol = protocolFromNumber (byteAt packet 9)
  payload : Subslice packet (ihl packet) (totalLen packet) ip.payload

structure Ipv6Exact (packet : Bytes) (ip : Ipv6Packet) : Prop where
  version : byteAt packet 0 >>> 4 = 6
  source : Subslice packet 8 24 ip.source.octets
  destination : Subslice packet 24 40 ip.destination.octets
  nextHeader : ip.nextHeader = protocolFromNumber (byteAt packet 6)
  payload : Subslice packet 40 (40 + payloadLen packet) ip.payload

def IpExact (packet : Bytes) : IpPacket → Prop
  | .v4 ip => Ipv4Exact packet ip
  | .v6 ip => Ipv6Exact packet ip

structure TcpExact (payload : Bytes) (segment : TcpSegment) : Prop where
  header : 20 ≤ dataOffset payload
  sourcePort : segment.sourcePort = be16At payload 0
  destinationPort : segment.destinationPort = be16At payload 2
  payload : Subslice payload (dataOffset payload) payload.length segment.payload

structure UdpExact (payload : Bytes) (datagram : UdpDatagram) : Prop where
  sourcePort : datagram.sourcePort = be16At payload 0
  destinationPort : datagram.destinationPort = be16At payload 2
  payload : Subslice payload 8 (udpLen payload) datagram.payload

def TransportExact (protocol : TransportProtocol) (payload : Bytes) : TransportPacket → Prop
  | .tcp segment => protocol = .tcp ∧ TcpExact payload segment
  | .udp datagram => protocol = .udp ∧ UdpExact payload datagram

/-! ### Of either version, over either transport -/

def IpPacket.source : IpPacket → IpAddr
  | .v4 ip => .v4 ip.source
  | .v6 ip => .v6 ip.source

def IpPacket.destination : IpPacket → IpAddr
  | .v4 ip => .v4 ip.destination
  | .v6 ip => .v6 ip.destination

def IpPacket.protocol : IpPacket → TransportProtocol
  | .v4 ip => ip.protocol
  | .v6 ip => ip.nextHeader

def IpPacket.payload : IpPacket → Bytes
  | .v4 ip => ip.payload
  | .v6 ip => ip.payload

/-- Where the transport packet begins. -/
def IpPacket.start (packet : Bytes) : IpPacket → Nat
  | .v4 _ => ihl packet
  | .v6 _ => 40

def IpPacket.stop (packet : Bytes) : IpPacket → Nat
  | .v4 _ => totalLen packet
  | .v6 _ => 40 + payloadLen packet

def TransportPacket.payload : TransportPacket → Bytes
  | .tcp segment => segment.payload
  | .udp datagram => datagram.payload

def TransportPacket.flowProtocol : TransportPacket → FlowProtocol
  | .tcp _ => .tcp
  | .udp _ => .udp

/-- Where the data begins in a transport packet. -/
def TransportPacket.start (payload : Bytes) : TransportPacket → Nat
  | .tcp _ => dataOffset payload
  | .udp _ => 8

def TransportPacket.stop (payload : Bytes) : TransportPacket → Nat
  | .tcp _ => payload.length
  | .udp _ => udpLen payload

/-- A flow that is found in a packet: by which IP packet and which transport packet, and where
its addresses, its ports and the data stand in the bytes. -/
structure FlowExact (packet : Bytes) (ip : IpPacket) (transport : TransportPacket) (flow : Flow) :
    Prop where
  headers : IpExact packet ip
  transportHeader : TransportExact ip.protocol ip.payload transport
  source : flow.source.address = ip.source
  destination : flow.destination.address = ip.destination
  protocol : flow.protocol = transport.flowProtocol
  sourcePort : flow.source.port = be16At packet (ip.start packet)
  destinationPort : flow.destination.port = be16At packet (ip.start packet + 2)
  payload : Subslice packet (ip.start packet + transport.start ip.payload)
    (ip.start packet + transport.stop ip.payload) transport.payload

theorem subslice_octetsAt {packet : Bytes} {i n : Nat} (h : i + n ≤ packet.length) :
    Subslice packet i (i + n) (octetsAt packet i n) := by
  rw [octetsAt_eq h]
  exact subslice_of_le (Nat.le_add_right i n) h

theorem parseIpv4Packet_exact {packet : Bytes} {ip : Ipv4Packet} (hversion : byteAt packet 0 >>> 4 = 4)
    (h : parseIpv4Packet packet = .ok ip) : Ipv4Exact packet ip := by
  obtain ⟨hheader,htotal,hthere⟩ := (parseIpv4Packet_ok_iff packet).mp ⟨ip,h⟩
  unfold parseIpv4Packet at h
  rw [if_neg (by omega), if_neg (by omega), if_neg (by omega)] at h
  cases h
  constructor
  case version => exact hversion
  case header => exact hheader
  case source => exact subslice_octetsAt (by omega)
  case destination => exact subslice_octetsAt (by omega)
  case protocol => rfl
  case payload => exact subslice_of_le htotal hthere

theorem parseIpv6Packet_exact {packet : Bytes} {ip : Ipv6Packet} (hversion : byteAt packet 0 >>> 4 = 6)
    (h : parseIpv6Packet packet = .ok ip) : Ipv6Exact packet ip := by
  unfold parseIpv6Packet at h
  split at h
  case isTrue => cases h
  case isFalse hlong =>
    simp only at h
    split at h
    case isTrue => cases h
    case isFalse hthere =>
      cases h
      constructor
      case version => exact hversion
      case source => exact subslice_octetsAt (by omega)
      case destination => exact subslice_octetsAt (by omega)
      case nextHeader => rfl
      case payload => exact subslice_of_le (Nat.le_add_right 40 _) (not_lt.mp hthere)

theorem map_eq_ok {ε α β : Type} {f : α → β} {r : Except ε α} {b : β} (h : r.map f = .ok b) :
    ∃ a, r = .ok a ∧ f a = b := by
  cases r with
  | error err => cases h
  | ok a =>
    cases h
    exact ⟨a,rfl,rfl⟩

theorem parseIpPacket_exact {packet : Bytes} {ip : IpPacket} (h : parseIpPacket packet = .ok ip) :
    IpExact packet ip := by
  cases packet with
  | nil => cases h
  | cons first rest =>
    simp only [parseIpPacket] at h
    split at h
    case isTrue hversion =>
      obtain ⟨ip,hip,rfl⟩ := map_eq_ok h
      exact parseIpv4Packet_exact hversion hip
    case isFalse =>
      split at h
      case isTrue hversion =>
        obtain ⟨ip,hip,rfl⟩ := map_eq_ok h
        exact parseIpv6Packet_exact hversion hip
      case isFalse => cases h

theorem parseTcp_exact {payload : Bytes} {segment : TcpSegment} (h : parseTcp payload = .ok segment) :
    TcpExact payload segment := by
  obtain ⟨hheader,hthere⟩ := (parseTcp_ok_iff payload).mp ⟨segment,h⟩
  obtain ⟨hsource,hdestination⟩ := parseTcp_ports h
  refine ⟨hheader,hsource,hdestination,?_⟩
  unfold parseTcp at h
  rw [if_neg (by omega), if_neg (by omega)] at h
  cases h
  have hslice := subslice_of_le hthere (Nat.le_refl payload.length)
  rw [List.take_length] at hslice
  exact hslice

theorem parseUdp_exact {payload : Bytes} {datagram : UdpDatagram} (h : parseUdp payload = .ok datagram) :
    UdpExact payload datagram := by
  obtain ⟨hheader,hthere⟩ := (parseUdp_ok_iff payload).mp ⟨datagram,h⟩
  obtain ⟨hsource,hdestination⟩ := parseUdp_ports h
  refine ⟨hsource,hdestination,?_⟩
  unfold parseUdp at h
  rw [if_neg (by omega), if_neg (by omega)] at h
  cases h
  exact subslice_of_le hheader hthere

theorem parseTransport_exact {protocol : TransportProtocol} {payload : Bytes}
    {transport : TransportPacket} (h : parseTransport protocol payload = .ok transport) :
    TransportExact protocol payload transport := by
  cases protocol with
  | tcp =>
    obtain ⟨segment,hsegment,rfl⟩ := map_eq_ok h
    exact ⟨rfl,parseTcp_exact hsegment⟩
  | udp =>
    obtain ⟨datagram,hdatagram,rfl⟩ := map_eq_ok h
    exact ⟨rfl,parseUdp_exact hdatagram⟩
  | icmp => cases h
  | icmpv6 => cases h
  | other value => cases h

/-! ### The flow -/

variable {packet : Bytes} {ip : IpPacket} {transport : TransportPacket} {flow : Flow}

theorem IpExact.delimits (h : IpExact packet ip) :
    Subslice packet (ip.start packet) (ip.stop packet) ip.payload := by
  cases ip with
  | v4 ip => exact Ipv4Exact.payload h
  | v6 ip => exact Ipv6Exact.payload h

theorem TransportExact.delimits {protocol : TransportProtocol} {payload : Bytes}
    (h : TransportExact protocol payload transport) :
    Subslice payload (transport.start payload) (transport.stop payload) transport.payload := by
  cases transport with
  | tcp segment => exact h.2.payload
  | udp datagram => exact h.2.payload

/-- The ports are within the header. -/
theorem TransportExact.long {protocol : TransportProtocol} {payload : Bytes}
    (h : TransportExact protocol payload transport) : 8 ≤ payload.length := by
  have hinside := h.delimits.inside
  have hlength := h.delimits.length
  cases transport with
  | tcp segment =>
    have hheader := h.2.header
    simp only [TransportPacket.start, TransportPacket.stop] at hinside hlength
    omega
  | udp datagram =>
    simp only [TransportPacket.start, TransportPacket.stop] at hinside hlength
    omega

theorem IpExact.word (h : IpExact packet ip) {i : Nat} (hi : i + 1 < ip.payload.length) :
    be16At ip.payload i = be16At packet (ip.start packet + i) := by
  have hpayload := h.delimits
  have hlength := hpayload.length
  rw [be16At, be16At, byteAt, byteAt, hpayload.getD (by omega), hpayload.getD (by omega),
    Nat.add_assoc]
  rfl

theorem flowFromPacket_reads (h : flowFromPacket packet = .ok flow) :
    ∃ ip transport, parseIpPacket packet = .ok ip ∧
      parseTransport ip.protocol ip.payload = .ok transport ∧
      flow = flowOf ip.source ip.destination transport := by
  rw [flowFromPacket] at h
  cases hip : parseIpPacket packet with
  | error err =>
    rw [hip] at h
    cases h
  | ok ip =>
    rw [hip] at h
    cases ip with
    | v4 ip =>
      obtain ⟨transport,htransport,rfl⟩ := map_eq_ok h
      exact ⟨_,transport,rfl,htransport,rfl⟩
    | v6 ip =>
      obtain ⟨transport,htransport,rfl⟩ := map_eq_ok h
      exact ⟨_,transport,rfl,htransport,rfl⟩

theorem flowFromPacket_exact (h : flowFromPacket packet = .ok flow) :
    ∃ ip transport, FlowExact packet ip transport flow := by
  obtain ⟨ip,transport,hip,htransport,rfl⟩ := flowFromPacket_reads h
  have hipExact := parseIpPacket_exact hip
  have hexact := parseTransport_exact htransport
  have hlong := hexact.long
  obtain ⟨hsource,hdestination⟩ := parseTransport_ports htransport ip.source ip.destination
  refine ⟨ip,transport,?_⟩
  constructor
  case headers => exact hipExact
  case transportHeader => exact hexact
  case source => cases transport <;> rfl
  case destination => cases transport <;> rfl
  case protocol => cases transport <;> rfl
  case sourcePort => exact hsource.trans (hipExact.word (by omega))
  case destinationPort => exact hdestination.trans (hipExact.word (by omega))
  case payload => exact hipExact.delimits.nest hexact.delimits

/-- Whatever bytes come, the three parsers return; and where they find something, it is what the
headers delimit. -/
theorem ip_stack_exact :
    (∀ packet, ∃ result, parseIpPacket? packet = some result ∧
      ∀ ip, result = .ok ip → IpExact packet ip) ∧
    (∀ protocol payload, ∃ result, parseTransport? protocol payload = some result ∧
      ∀ transport, result = .ok transport → TransportExact protocol payload transport) ∧
    ∀ packet, ∃ result, flowFromPacket? packet = some result ∧
      ∀ flow, result = .ok flow → ∃ ip transport, FlowExact packet ip transport flow := by
  refine ⟨fun packet => ?_,fun protocol payload => ?_,fun packet => ?_⟩
  · exact ⟨_,parseIpPacket?_eq packet,fun ip => parseIpPacket_exact⟩
  · exact ⟨_,parseTransport?_eq protocol payload,fun transport => parseTransport_exact⟩
  · exact ⟨_,flowFromPacket?_eq packet,fun flow => flowFromPacket_exact⟩

end AtlasKernel.Tun
