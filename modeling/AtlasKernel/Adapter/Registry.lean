import AtlasKernel.Routing.Router
import Mathlib.Data.List.Pairwise

/-! The adapters by the names of their protocols, and the runtime that takes each connection from
its route to one of them. What an adapter does on the network is any function. Source:
`adapter/mod.rs`, `outbound.rs`, `connection.rs`, `main.rs`. -/
namespace AtlasKernel.Adapter
open AtlasKernel.Lib AtlasKernel.Vless AtlasKernel.Routing

/-! ## Adapters -/

inductive NetworkCapability where
  | tcp | udp
deriving DecidableEq, Repr

/-- `impl OutboundAdapter`; `protocol_names()[0]` is there. -/
structure OutboundAdapter (σ : Type) where
  protocolNames : List String
  named : protocolNames ≠ []
  networks : List NetworkCapability
  validate : Routing.KernelNode → Except String Unit
  connect : Routing.KernelNode → TargetAddress → Except String σ
  sendUdp : Routing.KernelNode → TargetAddress → Bytes → Except String Bytes

/-- What an adapter of its own file does. -/
structure Backend (σ : Type) where
  validate : Routing.KernelNode → Except String Unit
  connect : Routing.KernelNode → TargetAddress → Except String σ
  sendUdp : Routing.KernelNode → TargetAddress → Bytes → Except String Bytes

structure Backends (σ : Type) where
  directConnect : TargetAddress → Except String σ
  directSendUdp : TargetAddress → Bytes → Except String Bytes
  httpConnect : Routing.KernelNode → TargetAddress → Except String σ
  shadowsocks : Backend σ
  hysteria2 : Backend σ
  vless : Backend σ
  anytls : Backend σ

variable {σ : Type} (backends : Backends σ)

def directAdapter : OutboundAdapter σ where
  protocolNames := ["direct"]
  named := nofun
  networks := [.tcp, .udp]
  validate := fun _ => .ok ()
  connect := fun _ target => backends.directConnect target
  sendUdp := fun _ target payload => backends.directSendUdp target payload

def httpValidate (node : Routing.KernelNode) : Except String Unit :=
  if node.server = "" ∨ node.serverPort = 0 then .error "HTTP proxy endpoint is invalid" else .ok ()

def httpAdapter : OutboundAdapter σ where
  protocolNames := ["http", "https"]
  named := nofun
  networks := [.tcp]
  validate := httpValidate
  connect := fun node target => do
    httpValidate node
    backends.httpConnect node target
  sendUdp := fun _ _ _ => .error "UDP is not implemented for http"

/-- An adapter that does both. -/
def backendAdapter (protocolNames : List String) (named : protocolNames ≠ [])
    (backend : Backend σ) : OutboundAdapter σ where
  protocolNames := protocolNames
  named := named
  networks := [.tcp, .udp]
  validate := backend.validate
  connect := backend.connect
  sendUdp := backend.sendUdp

def shadowsocksAdapter : OutboundAdapter σ :=
  backendAdapter ["ss", "shadowsocks", "ssr", "shadowsocksr"] nofun backends.shadowsocks

def hy2Adapter : OutboundAdapter σ :=
  backendAdapter ["hysteria2", "hy2"] nofun backends.hysteria2

def vlessAdapter : OutboundAdapter σ := backendAdapter ["vless"] nofun backends.vless

def anyTlsAdapter : OutboundAdapter σ := backendAdapter ["anytls"] nofun backends.anytls

def outboundAdapters : List (OutboundAdapter σ) :=
  [directAdapter backends, httpAdapter backends, shadowsocksAdapter backends, hy2Adapter backends,
    vlessAdapter backends, anyTlsAdapter backends]

/-! ## The registry -/

/-- A name of the adapter, in any case of letters. -/
def OutboundAdapter.speaks (adapter : OutboundAdapter σ) (protocol : String) : Bool :=
  adapter.protocolNames.any (eqIgnoreAsciiCase · protocol)

def adapterFor (protocol : String) : Except String (OutboundAdapter σ) :=
  match (outboundAdapters backends).find? (·.speaks protocol) with
  | some adapter => .ok adapter
  | none => .error ("unsupported protocol: " ++ protocol)

def NetworkCapability.debug : NetworkCapability → String
  | .tcp => "Tcp"
  | .udp => "Udp"

def ensureNetwork (adapter : OutboundAdapter σ) (network : NetworkCapability) :
    Except String Unit :=
  if network ∈ adapter.networks then .ok ()
  else .error ("protocol " ++ adapter.protocolNames.head adapter.named ++ " does not support " ++
    network.debug)

def validateNode (node : Routing.KernelNode) : Except String Unit := do
  let adapter ← adapterFor backends node.protocol
  adapter.validate node

def connectNetwork (node : Routing.KernelNode) (target : TargetAddress)
    (network : NetworkCapability) : Except String σ := do
  let adapter ← adapterFor backends node.protocol
  ensureNetwork adapter network
  adapter.connect node target

def sendUdpNetwork (node : Routing.KernelNode) (target : TargetAddress) (payload : Bytes) :
    Except String Bytes := do
  let adapter ← adapterFor backends node.protocol
  ensureNetwork adapter .udp
  adapter.sendUdp node target payload

/-! ## The runtime -/

structure OutboundSelection where
  tag : Option String
  protocol : String
deriving DecidableEq, Repr

structure ConnectionContext where
  target : TargetAddress
  network : NetworkCapability
  selectedOutbound : Option OutboundSelection
deriving DecidableEq, Repr

def ConnectionContext.selectOutbound (context : ConnectionContext) (node : Routing.KernelNode) :
    ConnectionContext :=
  { context with selectedOutbound := some ⟨node.id, node.protocol⟩ }

/-- `OutboundHandler::connect` -/
def outboundConnect (node : Routing.KernelNode) (context : ConnectionContext) :
    ConnectionContext × Except String σ :=
  let context := context.selectOutbound node
  (context, connectNetwork backends node context.target context.network)

/-- `OutboundHandler::send_udp` -/
def outboundSendUdp (node : Routing.KernelNode) (context : ConnectionContext) (payload : Bytes) :
    ConnectionContext × Except String Bytes :=
  let context := context.selectOutbound node
  (context, sendUdpNetwork backends node context.target payload)

/-- The node that a direct route is given. -/
def directNode : Routing.KernelNode where
  id := some "direct.runtime"
  protocol := "direct"
  server := "direct"
  serverPort := 1
  userId := ""
  parameters := .object []

/-- What `KernelRuntime::connect` and `KernelRuntime::send_udp` do with a decision. -/
def runtimeWith {β : Type}
    (outbound : Routing.KernelNode → ConnectionContext → ConnectionContext × Except String β)
    (session : KernelSession) (context : ConnectionContext) : ConnectionContext × Except String β :=
  match (Router.new session).decide context.target with
  | .error err => (context, .error err)
  | .ok .direct => outbound directNode context
  | .ok (.proxy node) => outbound node context
  | .ok .reject => (context, .error ("route rejected target: " ++ context.target.host ++ ":" ++
      toString context.target.port.toNat))

def runtimeConnect (session : KernelSession) (context : ConnectionContext) :
    ConnectionContext × Except String σ :=
  runtimeWith (outboundConnect backends) session context

def runtimeSendUdp (session : KernelSession) (context : ConnectionContext) (payload : Bytes) :
    ConnectionContext × Except String Bytes :=
  runtimeWith (fun node context => outboundSendUdp backends node context payload) session context

def validateSession (session : KernelSession) : Except String Unit :=
  if session.listenHost ≠ "127.0.0.1" then .error "kernel currently only listens on loopback"
  else if session.selectedNode.server = "" ∨ session.selectedNode.serverPort = 0 then
    .error "selected node endpoint is invalid"
  else do
    validateNode backends session.selectedNode
    session.nodes.forM (validateNode backends)

/-! ## One adapter for a name -/

def registeredNames : List (List String) :=
  [["direct"], ["http", "https"], ["ss", "shadowsocks", "ssr", "shadowsocksr"],
    ["hysteria2", "hy2"], ["vless"], ["anytls"]]

theorem outboundAdapters_names :
    (outboundAdapters backends).map (·.protocolNames) = registeredNames := rfl

theorem eqIgnoreAsciiCase_iff {text other : String} : eqIgnoreAsciiCase text other = true ↔
    toAsciiLowercase text.toList = toAsciiLowercase other.toList :=
  decide_eq_true_iff

/-- No name is in both lists, in whatever case. -/
def Apart (names names' : List String) : Prop :=
  ∀ name ∈ names, ∀ name' ∈ names', eqIgnoreAsciiCase name name' = false

instance : DecidableRel Apart := fun names names' =>
  inferInstanceAs (Decidable (∀ name ∈ names, ∀ name' ∈ names', eqIgnoreAsciiCase name name' = false))

theorem Apart.symm {names names' : List String} (h : Apart names names') : Apart names' names := by
  intro name' hname' name hname
  have hapart := h name hname name' hname'
  rw [← Bool.not_eq_true, eqIgnoreAsciiCase_iff] at hapart ⊢
  exact fun heq => hapart heq.symm

theorem registeredNames_apart : registeredNames.Pairwise Apart := by decide

theorem Apart.not_both {names names' : List String} (h : Apart names names') {protocol : String}
    (hname : names.any (eqIgnoreAsciiCase · protocol) = true) :
    names'.any (eqIgnoreAsciiCase · protocol) = false := by
  obtain ⟨name,hname,heq⟩ := List.any_eq_true.mp hname
  refine List.any_eq_false.mpr fun name' hname' heq' => ?_
  rw [eqIgnoreAsciiCase_iff] at heq heq'
  have hsame := eqIgnoreAsciiCase_iff.mpr (heq.trans heq'.symm)
  rw [h name hname name' hname'] at hsame
  cases hsame

theorem speaks_unique {adapter adapter' : OutboundAdapter σ} {protocol : String}
    (hmem : adapter ∈ outboundAdapters backends) (hmem' : adapter' ∈ outboundAdapters backends)
    (h : adapter.speaks protocol = true) (h' : adapter'.speaks protocol = true) :
    adapter = adapter' := by
  have hapart := registeredNames_apart
  rw [← outboundAdapters_names backends, List.pairwise_map] at hapart
  have hsymm : Std.Symm fun a b : OutboundAdapter σ => Apart a.protocolNames b.protocolNames :=
    ⟨fun _ _ => Apart.symm⟩
  by_contra hne
  have hnone := (hapart.forall hmem hmem' hne).not_both h
  rw [OutboundAdapter.speaks, hnone] at h'
  cases h'

/-- The place of an adapter in the list makes no difference. -/
theorem adapterFor_iff {protocol : String} {adapter : OutboundAdapter σ} :
    adapterFor backends protocol = .ok adapter ↔
      adapter ∈ outboundAdapters backends ∧ adapter.speaks protocol = true := by
  rw [adapterFor]
  cases hfind : (outboundAdapters backends).find? (·.speaks protocol) with
  | none =>
    refine iff_of_false nofun fun hspeaks => ?_
    have hnone := List.find?_eq_none.mp hfind adapter hspeaks.1
    exact hnone hspeaks.2
  | some found =>
    have hmem := List.mem_of_find?_eq_some hfind
    have hspeaks := List.find?_some hfind
    constructor
    · intro h
      cases h
      exact ⟨hmem,hspeaks⟩
    · rintro ⟨hmem',hspeaks'⟩
      rw [speaks_unique backends hmem hmem' hspeaks hspeaks']

/-! ## Validated sessions -/

/-- The adapter of the node, which has accepted it. -/
structure Serves (adapter : OutboundAdapter σ) (node : Routing.KernelNode) : Prop where
  registered : adapter ∈ outboundAdapters backends
  speaks : adapter.speaks node.protocol = true
  accepted : adapter.validate node = .ok ()

/-- The node that the route of the target gives. -/
inductive Sent (session : KernelSession) (target : TargetAddress) : Routing.KernelNode → Prop where
  | direct : Decides session target .direct → Sent session target directNode
  | proxy {node : Routing.KernelNode} : Decides session target (.proxy node) →
      Sent session target node

/-- The target is not to be reached. -/
def Refused (session : KernelSession) (target : TargetAddress) : Prop :=
  Decides session target .reject ∨ NamesNoNode session target

theorem validateNode_iff {node : Routing.KernelNode} :
    validateNode backends node = .ok () ↔ ∃ adapter, Serves backends adapter node := by
  constructor
  · intro h
    cases hfor : adapterFor backends node.protocol with
    | error err =>
      rw [validateNode, hfor] at h
      cases h
    | ok adapter =>
      obtain ⟨hmem,hspeaks⟩ := (adapterFor_iff backends).mp hfor
      rw [validateNode, hfor] at h
      exact ⟨adapter,hmem,hspeaks,h⟩
  · rintro ⟨adapter,hmem,hspeaks,haccepted⟩
    rw [validateNode, (adapterFor_iff backends).mpr ⟨hmem,hspeaks⟩]
    exact haccepted

theorem forM_ok {α : Type} {f : α → Except String Unit} {list : List α}
    (h : list.forM f = .ok ()) : ∀ a ∈ list, f a = .ok () := by
  induction list with
  | nil => nofun
  | cons a list ih =>
    change (f a >>= fun _ => list.forM f) = .ok () at h
    cases ha : f a with
    | error err =>
      rw [ha] at h
      cases h
    | ok u =>
      rw [ha] at h
      exact List.forall_mem_cons.mpr ⟨ha,ih h⟩

theorem validateSession_nodes {session : KernelSession}
    (h : validateSession backends session = .ok ()) :
    ∀ node ∈ session.nodes ++ [session.selectedNode], ∃ adapter, Serves backends adapter node := by
  rw [validateSession] at h
  split_ifs at h
  · cases hselected : validateNode backends session.selectedNode with
    | error err =>
      rw [hselected] at h
      cases h
    | ok u =>
      rw [hselected] at h
      intro node hnode
      rcases List.mem_append.mp hnode with hnode | hnode
      · exact (validateNode_iff backends).mp (forM_ok h node hnode)
      · rw [List.mem_singleton.mp hnode]
        exact (validateNode_iff backends).mp hselected

theorem directNode_serves : Serves backends (directAdapter backends) directNode :=
  ⟨List.mem_cons_self,(List.any_eq_true.mpr ⟨"direct",List.mem_cons_self,by decide⟩),rfl⟩

theorem Sent.serves {session : KernelSession} (h : validateSession backends session = .ok ())
    {target : TargetAddress} {node : Routing.KernelNode} (hsent : Sent session target node) :
    ∃ adapter, Serves backends adapter node := by
  cases hsent with
  | direct => exact ⟨_,directNode_serves backends⟩
  | proxy hdecides => exact validateSession_nodes backends h node hdecides.mem_nodes

/-! ## What is handed to an adapter -/

/-- The route is the same whatever is to be done with the node. -/
theorem runtimeWith_cases (session : KernelSession) (context : ConnectionContext) :
    (∃ node, Sent session context.target node ∧ ∀ {β : Type}
      (outbound : Routing.KernelNode → ConnectionContext → ConnectionContext × Except String β),
        runtimeWith outbound session context = outbound node context) ∨
    Refused session context.target ∧ ∃ err, ∀ {β : Type}
      (outbound : Routing.KernelNode → ConnectionContext → ConnectionContext × Except String β),
        runtimeWith outbound session context = (context, .error err) := by
  cases hdecide : (Router.new session).decide context.target with
  | error err =>
    refine .inr ⟨.inr (decide_error_iff.mp ⟨err,hdecide⟩),err,fun outbound => ?_⟩
    rw [runtimeWith, hdecide]
  | ok decision =>
    have hdecides := decides_of_decide hdecide
    cases decision with
    | direct =>
      refine .inl ⟨directNode,.direct hdecides,fun outbound => ?_⟩
      rw [runtimeWith, hdecide]
    | proxy node =>
      refine .inl ⟨node,.proxy hdecides,fun outbound => ?_⟩
      rw [runtimeWith, hdecide]
    | reject =>
      refine .inr ⟨.inl hdecides,"route rejected target: " ++ context.target.host ++ ":" ++
        toString context.target.port.toNat,fun outbound => ?_⟩
      rw [runtimeWith, hdecide]

/-- The one protocol without UDP. -/
def IsHttp (node : Routing.KernelNode) : Prop :=
  toAsciiLowercase node.protocol.toList = "http".toList ∨
    toAsciiLowercase node.protocol.toList = "https".toList

instance (node : Routing.KernelNode) : Decidable (IsHttp node) := inferInstanceAs (Decidable (_ ∨ _))

theorem mem_outboundAdapters {adapter : OutboundAdapter σ} (h : adapter ∈ outboundAdapters backends) :
    adapter = httpAdapter backends ∨ adapter.networks = [.tcp, .udp] := by
  simp only [outboundAdapters, List.mem_cons, List.not_mem_nil, or_false] at h
  rcases h with rfl | rfl | rfl | rfl | rfl | rfl
  · exact .inr rfl
  · exact .inl rfl
  all_goals exact .inr rfl

theorem http_speaks_iff (node : Routing.KernelNode) :
    (httpAdapter backends).speaks node.protocol = true ↔ IsHttp node := by
  have hhttp : toAsciiLowercase "http".toList = "http".toList := by decide
  have hhttps : toAsciiLowercase "https".toList = "https".toList := by decide
  have hnames : (httpAdapter backends).protocolNames = ["http", "https"] := rfl
  rw [OutboundAdapter.speaks, hnames, List.any_cons, List.any_cons, List.any_nil, Bool.or_false,
    Bool.or_eq_true, eqIgnoreAsciiCase_iff, eqIgnoreAsciiCase_iff, hhttp, hhttps, IsHttp]
  exact or_congr eq_comm eq_comm

theorem Serves.udp_iff {adapter : OutboundAdapter σ} {node : Routing.KernelNode}
    (h : Serves backends adapter node) : NetworkCapability.udp ∈ adapter.networks ↔ ¬ IsHttp node := by
  rw [← http_speaks_iff backends]
  obtain rfl | hboth := mem_outboundAdapters backends h.registered
  · exact iff_of_false (fun hudp => by cases hudp with | tail _ hmem => cases hmem) (not_not.mpr h.speaks)
  · refine iff_of_true (by rw [hboth]; simp) fun hspeaks => ?_
    have hmem : httpAdapter backends ∈ outboundAdapters backends := by simp [outboundAdapters]
    rw [speaks_unique backends h.registered hmem h.speaks hspeaks] at hboth
    cases hboth

theorem Serves.tcp {adapter : OutboundAdapter σ} {node : Routing.KernelNode}
    (h : Serves backends adapter node) : NetworkCapability.tcp ∈ adapter.networks := by
  obtain rfl | hboth := mem_outboundAdapters backends h.registered
  · exact List.mem_cons_self
  · rw [hboth]
    exact List.mem_cons_self

theorem Serves.connect {adapter : OutboundAdapter σ} {node : Routing.KernelNode}
    (h : Serves backends adapter node) {context : ConnectionContext} (hnetwork : context.network = .tcp) :
    outboundConnect backends node context =
      (context.selectOutbound node, adapter.connect node context.target) := by
  have hfor := (adapterFor_iff backends).mpr ⟨h.registered,h.speaks⟩
  have hselect : (context.selectOutbound node).network = .tcp := hnetwork
  rw [outboundConnect, connectNetwork, hfor]
  change (_, ensureNetwork adapter (context.selectOutbound node).network >>= fun _ => _) = _
  rw [hselect, ensureNetwork, if_pos (h.tcp backends)]
  rfl

theorem Serves.sendUdp {adapter : OutboundAdapter σ} {node : Routing.KernelNode}
    (h : Serves backends adapter node) (context : ConnectionContext) (payload : Bytes) :
    outboundSendUdp backends node context payload = (context.selectOutbound node,
      if IsHttp node then .error "protocol http does not support Udp"
      else adapter.sendUdp node context.target payload) := by
  have hfor := (adapterFor_iff backends).mpr ⟨h.registered,h.speaks⟩
  rw [outboundSendUdp, sendUdpNetwork, hfor]
  change (_, ensureNetwork adapter .udp >>= fun _ => _) = _
  by_cases hhttp : IsHttp node
  · have hmem : httpAdapter backends ∈ outboundAdapters backends := by simp [outboundAdapters]
    obtain rfl := speaks_unique backends h.registered hmem h.speaks
      ((http_speaks_iff backends node).mpr hhttp)
    rw [if_pos hhttp, ensureNetwork, if_neg (mt (h.udp_iff backends).mp (not_not.mpr hhttp))]
    rfl
  · rw [if_neg hhttp, ensureNetwork, if_pos ((h.udp_iff backends).mpr hhttp)]
    rfl

/-- In a session that has passed validation, every connection and every datagram whose target is
not refused comes to the one adapter that lists the protocol of its node, and that adapter has
accepted the node. Nothing comes to an adapter without UDP as a datagram, and what is refused
comes to none. -/
theorem validated_session_handed_over {session : KernelSession}
    (h : validateSession backends session = .ok ()) (context : ConnectionContext) (payload : Bytes) :
    (∃ node adapter, Sent session context.target node ∧ Serves backends adapter node ∧
      (context.network = .tcp → runtimeConnect backends session context =
        (context.selectOutbound node, adapter.connect node context.target)) ∧
      runtimeSendUdp backends session context payload = (context.selectOutbound node,
        if IsHttp node then .error "protocol http does not support Udp"
        else adapter.sendUdp node context.target payload)) ∨
    Refused session context.target ∧ ∃ err,
      runtimeConnect backends session context = (context, .error err) ∧
        runtimeSendUdp backends session context payload = (context, .error err) := by
  obtain ⟨node,hsent,hrun⟩ | ⟨hrefused,err,hrun⟩ := runtimeWith_cases session context
  · obtain ⟨adapter,hserves⟩ := hsent.serves backends h
    refine .inl ⟨node,adapter,hsent,hserves,fun hnetwork => ?_,?_⟩
    · rw [runtimeConnect, hrun, hserves.connect backends hnetwork]
    · rw [runtimeSendUdp, hrun, hserves.sendUdp backends]
  · exact .inr ⟨hrefused,err,hrun _,hrun _⟩

/-- Nothing is reached over a network that is down. -/
def offline : Backends Unit :=
  let backend : Backend Unit := ⟨fun _ => .ok (),fun _ _ => .error "offline",
    fun _ _ _ => .error "offline"⟩
  ⟨fun _ => .error "offline",fun _ _ => .error "offline",fun _ _ => .error "offline",backend,backend,
    backend,backend⟩

/-- An HTTP proxy is selected, and names under `.local` are reached without it. -/
def httpSession : KernelSession where
  listenHost := "127.0.0.1"
  selectedNode := ⟨⟨"proxy", 3128, "", .object []⟩,none,"HTTP"⟩
  nodes := []
  routing := ⟨.rule,[⟨.domainSuffix ".local", .direct, true⟩]⟩

theorem httpSession_handed_over :
    (∃ node adapter, Sent httpSession ⟨"printer.LOCAL", 631⟩ node ∧ Serves offline adapter node) ∨
      Refused httpSession ⟨"printer.LOCAL", 631⟩ :=
  (@validated_session_handed_over _ offline httpSession rfl
    ⟨⟨"printer.LOCAL", 631⟩, .tcp, none⟩ []).imp
    (fun ⟨node,adapter,hsent,hserves,_⟩ => ⟨node,adapter,hsent,hserves⟩) (·.1)

end AtlasKernel.Adapter
