import AtlasKernel.Lib.DebugText
import AtlasKernel.Vless.VisionPadding

/-! VLESS configurations, and the keys under which their connections are kept for reuse.
`Debug` prints each character that is neither printable nor ASCII in its own way, which is
the parameter `unicode`. Source: `adapter/vless.rs`. -/
namespace AtlasKernel.Vless
open AtlasKernel.Lib

inductive VlessSecurity where
  | none
  | reality (publicKey shortId : String) (fingerprint : Option String)
  | tls
deriving DecidableEq, Repr

inductive VlessTransportKind where
  | tcp
  | webSocket
  | grpc
  | h2
  | httpUpgrade
  | xHttp
deriving DecidableEq, Repr

inductive XHttpMode where
  | auto
  | streamOne
  | streamUp
  | packetUp
deriving DecidableEq, Repr

inductive XHttpVersion where
  | auto
  | h1
  | h2
  | h3
deriving DecidableEq, Repr

structure XHttpXmuxConfig where
  maxConcurrency : Int32
  maxConnections : Int32
  cMaxReuseTimes : Int32
  hMaxRequestTimes : Int32
  hMaxReusableSecs : UInt64
deriving DecidableEq, Repr

structure VlessTransport where
  kind : VlessTransportKind
  host : Option String
  path : String
  serviceName : String
  authority : Option String
  mode : XHttpMode
  httpVersion : XHttpVersion
  scMaxEachPostBytes : UInt64
  scMinPostsIntervalMs : UInt64
  xmux : XHttpXmuxConfig
deriving DecidableEq, Repr

structure VlessConfig where
  server : String
  serverPort : UInt16
  uuid : Uuid
  sni : Option String
  flow : Option String
  security : VlessSecurity
  transport : VlessTransport
  insecure : Bool
deriving DecidableEq, Repr

/-! ## `Debug` -/

def VlessTransportKind.debug : VlessTransportKind → List Char
  | .tcp => "Tcp".toList
  | .webSocket => "WebSocket".toList
  | .grpc => "Grpc".toList
  | .h2 => "H2".toList
  | .httpUpgrade => "HttpUpgrade".toList
  | .xHttp => "XHttp".toList

def XHttpMode.debug : XHttpMode → List Char
  | .auto => "Auto".toList
  | .streamOne => "StreamOne".toList
  | .streamUp => "StreamUp".toList
  | .packetUp => "PacketUp".toList

def XHttpVersion.debug : XHttpVersion → List Char
  | .auto => "Auto".toList
  | .h1 => "H1".toList
  | .h2 => "H2".toList
  | .h3 => "H3".toList

def XHttpXmuxConfig.debug (x : XHttpXmuxConfig) : List Char :=
  debugStruct "XHttpXmuxConfig"
    [("max_concurrency", (toString x.maxConcurrency.toInt).toList),
      ("max_connections", (toString x.maxConnections.toInt).toList),
      ("c_max_reuse_times", (toString x.cMaxReuseTimes.toInt).toList),
      ("h_max_request_times", (toString x.hMaxRequestTimes.toInt).toList),
      ("h_max_reusable_secs", (toString x.hMaxReusableSecs.toNat).toList)]

section
variable (unicode : Char → Bool)

def VlessSecurity.debug : VlessSecurity → List Char
  | .none => "None".toList
  | .tls => "Tls".toList
  | .reality publicKey shortId fingerprint =>
    debugStruct "Reality"
      [("public_key", debugStr unicode publicKey), ("short_id", debugStr unicode shortId),
        ("fingerprint", debugOption (debugStr unicode) fingerprint)]

def VlessTransport.debug (t : VlessTransport) : List Char :=
  debugStruct "VlessTransport"
    [("kind", t.kind.debug), ("host", debugOption (debugStr unicode) t.host),
      ("path", debugStr unicode t.path), ("service_name", debugStr unicode t.serviceName),
      ("authority", debugOption (debugStr unicode) t.authority), ("mode", t.mode.debug),
      ("http_version", t.httpVersion.debug),
      ("sc_max_each_post_bytes", (toString t.scMaxEachPostBytes.toNat).toList),
      ("sc_min_posts_interval_ms", (toString t.scMinPostsIntervalMs.toNat).toList),
      ("xmux", t.xmux.debug)]

end

theorem xmux_debug : SelfDelimiting XHttpXmuxConfig.debug := by
  intro a b x y h
  obtain ⟨hconcurrency,h⟩ := int_until (by decide) (by decide)
    (debugFields_value (debugStruct_fields h))
  obtain ⟨hconnections,h⟩ := int_until (by decide) (by decide) (debugFields_value h)
  obtain ⟨hreuse,h⟩ := int_until (by decide) (by decide) (debugFields_value h)
  obtain ⟨hrequests,h⟩ := int_until (by decide) (by decide) (debugFields_value h)
  obtain ⟨hsecs,h⟩ := nat_until (by decide) (debugFields_last h)
  refine ⟨?_, (List.cons.inj h).2⟩
  cases a
  cases b
  simp_all [Int32.toInt_inj, UInt64.toNat_inj]

variable {unicode : Char → Bool}

theorem security_debug : SelfDelimiting (VlessSecurity.debug unicode) := by
  intro a b x y h
  cases a <;> cases b
  case none.none => exact ⟨rfl, List.append_cancel_left h⟩
  case tls.tls => exact ⟨rfl, List.append_cancel_left h⟩
  case reality.reality publicKey shortId fingerprint publicKey' shortId' fingerprint' =>
    obtain ⟨hkey,h⟩ := debugStr_selfDelimiting _ _ _ _ (debugFields_value (debugStruct_fields h))
    obtain ⟨hid,h⟩ := debugStr_selfDelimiting _ _ _ _ (debugFields_value (List.cons.inj h).2)
    obtain ⟨hprint,h⟩ := debugStr_selfDelimiting.option _ _ _ _
      (debugFields_last (List.cons.inj h).2)
    rw [hkey, hid, hprint]
    exact ⟨rfl, (List.cons.inj (List.cons.inj h).2).2⟩
  all_goals exact absurd (List.cons.inj h).1 (by decide)

/-- A value without data, up to the comma behind it. -/
theorem tag_until {α : Type*} {debug : α → List Char}
    (h : (∀ a, ',' ∉ debug a) ∧ ∀ a b, debug a = debug b → a = b) {a b : α} {x y : List Char}
    (heq : debug a ++ ',' :: x = debug b ++ ',' :: y) : a = b ∧ x = y := by
  obtain ⟨htext,hrest⟩ := until_eq (h.1 a) (h.1 b) heq
  exact ⟨h.2 a b htext, hrest⟩

theorem kind_debug : (∀ a, ',' ∉ VlessTransportKind.debug a) ∧
    ∀ a b, VlessTransportKind.debug a = VlessTransportKind.debug b → a = b := by
  constructor
  · intro a
    cases a <;> decide
  · intro a b
    cases a <;> cases b <;> decide

theorem mode_debug : (∀ a, ',' ∉ XHttpMode.debug a) ∧
    ∀ a b, XHttpMode.debug a = XHttpMode.debug b → a = b := by
  constructor
  · intro a
    cases a <;> decide
  · intro a b
    cases a <;> cases b <;> decide

theorem httpVersion_debug : (∀ a, ',' ∉ XHttpVersion.debug a) ∧
    ∀ a b, XHttpVersion.debug a = XHttpVersion.debug b → a = b := by
  constructor
  · intro a
    cases a <;> decide
  · intro a b
    cases a <;> cases b <;> decide

theorem transport_debug : SelfDelimiting (VlessTransport.debug unicode) := by
  intro a b x y h
  obtain ⟨hkind,h⟩ := tag_until kind_debug (debugFields_value (debugStruct_fields h))
  obtain ⟨hhost,h⟩ := debugStr_selfDelimiting.option _ _ _ _ (debugFields_value h)
  obtain ⟨hpath,h⟩ := debugStr_selfDelimiting _ _ _ _ (debugFields_value (List.cons.inj h).2)
  obtain ⟨hservice,h⟩ := debugStr_selfDelimiting _ _ _ _ (debugFields_value (List.cons.inj h).2)
  obtain ⟨hauthority,h⟩ := debugStr_selfDelimiting.option _ _ _ _
    (debugFields_value (List.cons.inj h).2)
  obtain ⟨hmode,h⟩ := tag_until mode_debug (debugFields_value (List.cons.inj h).2)
  obtain ⟨hversion,h⟩ := tag_until httpVersion_debug (debugFields_value h)
  obtain ⟨hbytes,h⟩ := nat_until (by decide) (debugFields_value h)
  obtain ⟨hinterval,h⟩ := nat_until (by decide) (debugFields_value h)
  obtain ⟨hxmux,h⟩ := xmux_debug _ _ _ _ (debugFields_last h)
  refine ⟨?_, (List.cons.inj (List.cons.inj h).2).2⟩
  cases a
  cases b
  simp_all [UInt64.toNat_inj]

/-! ## Keys -/

namespace VlessConfig

def transportHost (c : VlessConfig) : Option String :=
  (c.transport.host.or c.transport.authority).or c.sni

/-- Strings by their characters. -/
def normalizedPath (path : List Char) : List Char :=
  match path with
  | [] => ['/']
  | '/' :: rest => '/' :: rest
  | c :: rest => '/' :: c :: rest

def xhttpPath (c : VlessConfig) : List Char :=
  let path := normalizedPath c.transport.path.toList
  if path.getLast? = some '/' then path else path ++ ['/']

/-- What both keys begin with. -/
def endpoint (c : VlessConfig) (rest : List Char) : List Char :=
  c.server.toList ++ ':' :: ((toString c.serverPort.toNat).toList ++
    '|' :: ((c.sni.getD "").toList ++ '|' :: rest))

/-- The key of `mux_worker_for`. -/
def muxKey (unicode : Char → Bool) (c : VlessConfig) : List Char :=
  c.endpoint (c.security.debug unicode ++
    '|' :: (c.transport.debug unicode ++ '|' :: (c.flow.getD "").toList))

def xhttpH2XmuxKey (unicode : Char → Bool) (c : VlessConfig) : List Char :=
  c.endpoint (c.security.debug unicode ++
    '|' :: ((c.transportHost.getD "").toList ++
      '|' :: (c.xhttpPath ++ '|' :: c.transport.xmux.debug)))

/-- The fields of the mux key agree, with an absent text like an empty one. -/
structure SameMuxFields (c d : VlessConfig) : Prop where
  server : c.server = d.server
  serverPort : c.serverPort = d.serverPort
  sni : c.sni.getD "" = d.sni.getD ""
  security : c.security = d.security
  transport : c.transport = d.transport
  flow : c.flow.getD "" = d.flow.getD ""

structure SameXmuxFields (c d : VlessConfig) : Prop where
  server : c.server = d.server
  serverPort : c.serverPort = d.serverPort
  sni : c.sni.getD "" = d.sni.getD ""
  security : c.security = d.security
  host : c.transportHost.getD "" = d.transportHost.getD ""
  path : c.xhttpPath = d.xhttpPath
  xmux : c.transport.xmux = d.transport.xmux

instance (c d : VlessConfig) : Decidable (c.SameMuxFields d) :=
  decidable_of_iff (c.server = d.server ∧ c.serverPort = d.serverPort ∧
    c.sni.getD "" = d.sni.getD "" ∧ c.security = d.security ∧ c.transport = d.transport ∧
    c.flow.getD "" = d.flow.getD "")
    ⟨fun ⟨h₁, h₂, h₃, h₄, h₅, h₆⟩ => ⟨h₁, h₂, h₃, h₄, h₅, h₆⟩,
      fun ⟨h₁, h₂, h₃, h₄, h₅, h₆⟩ => ⟨h₁, h₂, h₃, h₄, h₅, h₆⟩⟩

instance (c d : VlessConfig) : Decidable (c.SameXmuxFields d) :=
  decidable_of_iff (c.server = d.server ∧ c.serverPort = d.serverPort ∧
    c.sni.getD "" = d.sni.getD "" ∧ c.security = d.security ∧
    c.transportHost.getD "" = d.transportHost.getD "" ∧ c.xhttpPath = d.xhttpPath ∧
    c.transport.xmux = d.transport.xmux)
    ⟨fun ⟨h₁, h₂, h₃, h₄, h₅, h₆, h₇⟩ => ⟨h₁, h₂, h₃, h₄, h₅, h₆, h₇⟩,
      fun ⟨h₁, h₂, h₃, h₄, h₅, h₆, h₇⟩ => ⟨h₁, h₂, h₃, h₄, h₅, h₆, h₇⟩⟩

/-- No separator stands in the server or the SNI. -/
def PlainNames (c : VlessConfig) : Prop := '|' ∉ c.server.toList ∧ '|' ∉ (c.sni.getD "").toList

instance (c : VlessConfig) : Decidable c.PlainNames := inferInstanceAs (Decidable (_ ∧ _))

/-- A server with its port has no separator, and its port no colon. -/
theorem serverPort_until {s t x y : List Char} {p q : UInt16} (hs : '|' ∉ s) (ht : '|' ∉ t)
    (h : s ++ ':' :: ((toString p.toNat).toList ++ '|' :: x) =
      t ++ ':' :: ((toString q.toNat).toList ++ '|' :: y)) : s = t ∧ p = q ∧ x = y := by
  have hplain (r : List Char) (port : UInt16) (hr : '|' ∉ r) :
      '|' ∉ r ++ ':' :: (toString port.toNat).toList := by
    rw [List.mem_append, List.mem_cons]
    rintro (hmem | hmem | hmem)
    · exact hr hmem
    · exact absurd hmem (by decide)
    · exact not_mem_natText (by decide) _ hmem
  rw [← List.cons_append, ← List.cons_append, ← List.append_assoc, ← List.append_assoc] at h
  obtain ⟨hserver,hrest⟩ := until_eq (hplain s p hs) (hplain t q ht) h
  obtain ⟨hname,hport⟩ := after_eq (not_mem_natText (by decide) _)
    (not_mem_natText (by decide) _) hserver
  exact ⟨hname, UInt16.toNat_inj.mp (Nat.repr_injective (String.toList_inj.mp hport)), hrest⟩

theorem endpoint_eq {c d : VlessConfig} (hc : c.PlainNames) (hd : d.PlainNames) {x y : List Char}
    (h : c.endpoint x = d.endpoint y) :
    c.server = d.server ∧ c.serverPort = d.serverPort ∧ c.sni.getD "" = d.sni.getD "" ∧
      x = y := by
  obtain ⟨hserver,hport,hrest⟩ := serverPort_until hc.1 hd.1 h
  obtain ⟨hsni,hrest⟩ := until_eq hc.2 hd.2 hrest
  exact ⟨String.toList_inj.mp hserver, hport, String.toList_inj.mp hsni, hrest⟩

theorem muxKey_eq {c d : VlessConfig} (hc : c.PlainNames) (hd : d.PlainNames)
    (h : c.muxKey unicode = d.muxKey unicode) : c.SameMuxFields d := by
  obtain ⟨hserver,hport,hsni,h⟩ := endpoint_eq hc hd h
  obtain ⟨hsecurity,h⟩ := security_debug _ _ _ _ h
  obtain ⟨htransport,h⟩ := transport_debug _ _ _ _ (List.cons.inj h).2
  exact ⟨hserver, hport, hsni, hsecurity, htransport, String.toList_inj.mp (List.cons.inj h).2⟩

theorem bar_not_mem_xmux (x : XHttpXmuxConfig) : '|' ∉ x.debug := by
  have hint (n : Int) : '|' ∉ n.repr.toList := not_mem_intText (by decide) (by decide) n
  have hnat (n : Nat) : '|' ∉ Nat.toDigits 10 n := @Nat.toList_repr n ▸ not_mem_natText (by decide) n
  simp [XHttpXmuxConfig.debug, debugStruct, debugFields, hint, hnat]

theorem xhttpH2XmuxKey_eq {c d : VlessConfig} (hc : c.PlainNames) (hd : d.PlainNames)
    (hhost : '|' ∉ (c.transportHost.getD "").toList)
    (hhost' : '|' ∉ (d.transportHost.getD "").toList)
    (h : c.xhttpH2XmuxKey unicode = d.xhttpH2XmuxKey unicode) : c.SameXmuxFields d := by
  obtain ⟨hserver,hport,hsni,h⟩ := endpoint_eq hc hd h
  obtain ⟨hsecurity,h⟩ := security_debug _ _ _ _ h
  obtain ⟨hosts,h⟩ := until_eq hhost hhost' (List.cons.inj h).2
  obtain ⟨hpath,hxmux⟩ := after_eq (bar_not_mem_xmux _) (bar_not_mem_xmux _) h
  have hconfig := (xmux_debug _ _ [] [] (congrArg (· ++ []) hxmux)).1
  exact ⟨hserver, hport, hsni, hsecurity, String.toList_inj.mp hosts, hpath, hconfig⟩

theorem endpoint_append (c : VlessConfig) (x y : List Char) :
    c.endpoint x ++ y = c.endpoint (x ++ y) := by
  simp [endpoint]

/-- Whatever names stand in a key, the limits are what follows its last separator. -/
theorem xhttpH2XmuxKey_xmux {c d : VlessConfig}
    (h : c.xhttpH2XmuxKey unicode = d.xhttpH2XmuxKey unicode) :
    c.transport.xmux = d.transport.xmux := by
  have hlast (c : VlessConfig) : c.xhttpH2XmuxKey unicode =
      c.endpoint (c.security.debug unicode ++
        '|' :: ((c.transportHost.getD "").toList ++ '|' :: c.xhttpPath)) ++
      '|' :: c.transport.xmux.debug := by
    rw [endpoint_append, xhttpH2XmuxKey]
    simp
  rw [hlast, hlast] at h
  obtain ⟨-,hxmux⟩ := after_eq (bar_not_mem_xmux _) (bar_not_mem_xmux _) h
  exact (xmux_debug _ _ [] [] (congrArg (· ++ []) hxmux)).1

end VlessConfig
end AtlasKernel.Vless
