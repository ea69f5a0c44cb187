import AtlasKernel.Tun.IpStack

/-! What the packet tunnel decides about a packet: intercept it as a DNS query, route its
flow, or drop it. Source: `neoncore-routing`, `neoncore-dns`, `neoncore-tun`. -/
namespace AtlasKernel.Tun
open AtlasKernel.Lib

inductive RoutingMode where
  | global | rule | direct
deriving DecidableEq, Repr

inductive RouteProtocol where
  | tcp | udp
deriving DecidableEq, Repr

inductive RouteMatcher where
  | ip (value : IpAddr)
  | cidr (value : List Char)
  | port (value : Nat)
  | protocol (value : RouteProtocol)
deriving DecidableEq, Repr

inductive RouteAction where
  | proxy | direct | reject
deriving DecidableEq, Repr

structure RoutingRule where
  matcher : RouteMatcher
  action : RouteAction
  enabled : Bool
deriving DecidableEq, Repr

structure RoutingTable where
  mode : RoutingMode
  rules : List RoutingRule
deriving DecidableEq, Repr

def matchesRule (matcher : RouteMatcher) (flow : Flow) : Bool :=
  match matcher with
  | .ip value => flow.destination.address = value
  | .cidr value => matchesCidr flow.destination.address value
  | .port value => flow.destination.port = value
  | .protocol .tcp => flow.protocol = .tcp
  | .protocol .udp => flow.protocol = .udp

def RoutingTable.decide (table : RoutingTable) (flow : Flow) : RouteAction :=
  match table.mode with
  | .direct => .direct
  | .global => .proxy
  | .rule =>
    (((table.rules.filter (·.enabled)).find? (matchesRule ·.matcher flow)).map (·.action)).getD
      .proxy

structure DnsHijackConfig where
  enabled : Bool
  port : Nat
  ipv4Servers : List IpAddr
  ipv6Servers : List IpAddr
deriving DecidableEq, Repr

inductive DnsInterception where
  | hijack (destination : IpAddr) (port : Nat)
  | pass
deriving DecidableEq, Repr

def DnsHijackConfig.inspect (config : DnsHijackConfig) (flow : Flow) : DnsInterception :=
  if !config.enabled ∨ flow.protocol ≠ .udp ∨ flow.destination.port ≠ config.port then .pass
  else if config.ipv4Servers.isEmpty ∧ config.ipv6Servers.isEmpty then
    .hijack flow.destination.address flow.destination.port
  else
    let servers :=
      if flow.destination.address.isIpv4 then config.ipv4Servers else config.ipv6Servers
    if flow.destination.address ∈ servers then
      .hijack flow.destination.address flow.destination.port
    else .pass

def looksLikeDnsQuery (payload : Bytes) : Bool :=
  if payload.length < 12 then false
  else be16At payload 2 < 0x8000 && 0 < be16At payload 4

structure TunConfig where
  routing : RoutingTable
  dnsHijack : DnsHijackConfig
deriving DecidableEq, Repr

inductive DropReason where
  | unsupportedPacket | routeRejected | unsupportedTransport
deriving DecidableEq, Repr

inductive TunDecision where
  | forwardTcp (flow : Flow) (action : RouteAction)
  | forwardUdp (flow : Flow) (action : RouteAction)
  | interceptDns (flow : Flow)
  | drop (reason : DropReason)
deriving DecidableEq, Repr

def isDnsHijack (config : TunConfig) (packet : Bytes) (flow : Flow) : Bool :=
  match config.dnsHijack.inspect flow with
  | .pass => false
  | .hijack _ _ =>
    match parseIpPacket packet with
    | .error _ => false
    | .ok ip =>
      let transport := match ip with
        | .v4 ip => parseTransport ip.protocol ip.payload
        | .v6 ip => parseTransport ip.nextHeader ip.payload
      match transport with
      | .ok (.udp datagram) => looksLikeDnsQuery datagram.payload
      | _ => false

/-- `TunEngine::inspect_packet` -/
def inspectPacket (config : TunConfig) (packet : Bytes) : TunDecision :=
  match flowFromPacket packet with
  | .error _ => .drop .unsupportedPacket
  | .ok flow =>
    if isDnsHijack config packet flow then .interceptDns flow
    else
      let action := config.routing.decide flow
      if action = .reject then .drop .routeRejected
      else match flow.protocol with
        | .tcp => .forwardTcp flow action
        | .udp => .forwardUdp flow action

/-- The flow a decision reports. -/
def TunDecision.flow? : TunDecision → Option Flow
  | .forwardTcp flow _ | .forwardUdp flow _ | .interceptDns flow => some flow
  | .drop _ => none

/-- A decision reports no flow but the one that was parsed. -/
theorem inspectPacket_flow {config : TunConfig} {packet : Bytes} {flow : Flow}
    (h : (inspectPacket config packet).flow? = some flow) : flowFromPacket packet = .ok flow := by
  unfold inspectPacket at h
  cases hflow : flowFromPacket packet with
  | error err =>
    rw [hflow] at h
    cases h
  | ok parsed =>
    simp only [hflow] at h
    split at h
    · cases h; rfl
    · split at h
      · cases h
      · split at h <;> cases h <;> rfl

/-- For an IPv4 packet that continues a datagram, neither function reports a flow with
ports read from its payload. -/
def FragmentUnclassified (packet : Bytes) : Prop :=
  isIpv4 packet → fragmentOffset packet ≠ 0 →
    (∀ flow, flowFromPacket packet = .ok flow → ¬ ReadsPortsFrom (ipv4Payload packet) flow) ∧
    ∀ config flow, (inspectPacket config packet).flow? = some flow →
      ¬ ReadsPortsFrom (ipv4Payload packet) flow

/-- A fragment goes unclassified exactly where its payload does not pass for a transport
header: the offset is never looked at. -/
theorem fragment_unclassified_iff (packet : Bytes) :
    FragmentUnclassified packet ↔
      (isIpv4 packet → fragmentOffset packet ≠ 0 → ¬ TransportShaped packet) := by
  constructor
  · intro h hv4 hoffset hshaped
    obtain ⟨flow,hflow⟩ := (flowFromPacket_ok_iff hv4).mpr hshaped
    exact (h hv4 hoffset).1 flow hflow (flowFromPacket_ports hv4 hflow)
  · intro h hv4 hoffset
    have hnone : ∀ flow, flowFromPacket packet ≠ .ok flow := fun flow hflow =>
      h hv4 hoffset ((flowFromPacket_ok_iff hv4).mp ⟨flow,hflow⟩)
    refine ⟨?_,?_⟩
    · intro flow hflow
      exact absurd hflow (hnone flow)
    · intro config flow hflow
      exact absurd (inspectPacket_flow hflow) (hnone flow)

/-- The second fragment of a UDP datagram: its payload is the middle of some data, and its
first bytes become the ports 4660 and 53. -/
def laterFragment : Bytes :=
  [0x45, 0, 0, 32, 0, 1, 0, 2, 64, 17, 0, 0, 10, 0, 0, 2, 1, 1, 1, 1,
    0x12, 0x34, 0, 53, 0, 12, 0, 0, 1, 2, 3, 4]

theorem later_fragment_is_classified : ¬ ∀ packet, FragmentUnclassified packet := by
  intro h
  have hflow : flowFromPacket laterFragment = .ok
      ⟨⟨.v4 ⟨[10, 0, 0, 2], rfl⟩, 0x1234⟩, ⟨.v4 ⟨[1, 1, 1, 1], rfl⟩, 53⟩, .udp⟩ := by decide
  exact (h laterFragment (by decide) (by decide)).1 _ hflow (by decide)

end AtlasKernel.Tun
