import AtlasKernel.Lib.StrSlice
import AtlasKernel.Vless.ConfigKeys

/-! The VLESS configuration of a node. Only the slices of `parse_uuid` could panic; what is made
of the other parameters is a value or an error. Source: `adapter/vless.rs`, `session.rs`. -/
namespace AtlasKernel.Vless
open AtlasKernel.Lib

/-! ## Nodes -/

/-- A JSON value, as far as a parameter is looked up in it. -/
inductive JsonValue where
  | string (text : String)
  | object (fields : List (String × JsonValue))
  | other

def JsonValue.get (key : String) : JsonValue → Option JsonValue
  | .object fields => fields.lookup key
  | _ => none

def JsonValue.asStr : JsonValue → Option String
  | .string text => some text
  | _ => none

structure KernelNode where
  server : String
  serverPort : UInt16
  userId : String
  parameters : JsonValue

def KernelNode.parameter (node : KernelNode) (key : String) : Option String :=
  (node.parameters.get key).bind JsonValue.asStr

/-! ## Numbers -/

/-- The number under the first of the keys that is there. -/
def parseParam {α : Type} (parse : List Char → Except ParseIntError α) (node : KernelNode)
    (keys : List String) (default : α) : Except String α :=
  match keys.findSome? node.parameter with
  | none => .ok default
  | some value =>
    match parse value.toList with
    | .ok n => .ok n
    | .error err => .error ("invalid numeric VLESS parameter " ++ value ++ ": " ++ err.text)

def parseUsizeParam : KernelNode → List String → UInt64 → Except String UInt64 :=
  parseParam fun text => (parseDecimal 18446744073709551615 text).map UInt64.ofNat

def parseU64Param : KernelNode → List String → UInt64 → Except String UInt64 :=
  parseParam fun text => (parseDecimal 18446744073709551615 text).map UInt64.ofNat

def parseI32Param : KernelNode → List String → Int32 → Except String Int32 :=
  parseParam fun text => (parseSigned 2147483647 text).map Int32.ofInt

/-! ## UUIDs -/

/-- The loop over the bytes of a UUID. -/
def uuidLoop? (compact : List Char) : List (Fin 16) → Uuid → Option (Except String Uuid)
  | [], bytes => some (.ok bytes)
  | index :: indices, bytes =>
    match strSlice? compact (index * 2) (index * 2 + 2) with
    | none => none
    | some digits =>
      match parseHexByte digits with
      | .error err => some (.error err.text)
      | .ok byte => uuidLoop? compact indices (bytes.set index (UInt8.ofNat byte))

def parseUuid? (value : String) : Option (Except String Uuid) :=
  let compact := value.toList.filter (· ≠ '-')
  if (utf8 compact).length ≠ 32 ∨ compact.all isAsciiHexdigit = false then
    some (.error "VLESS requires a valid UUID")
  else uuidLoop? compact (List.finRange 16) (Vector.replicate 16 0)

/-! ## The configuration -/

def VlessSecurity.fromNode (node : KernelNode) : Except String VlessSecurity :=
  match (node.parameter "security").getD "none" with
  | "none" => .ok .none
  | "tls" => .ok .tls
  | "reality" =>
    match node.parameter "sni" with
    | .none => .error "VLESS Reality requires parameter: sni"
    | some _ =>
      match node.parameter "pbk" with
      | .none => .error "VLESS Reality requires parameter: pbk"
      | some publicKey =>
        match node.parameter "sid" with
        | .none => .error "VLESS Reality requires parameter: sid"
        | some shortId => .ok (.reality publicKey shortId (node.parameter "fp"))
  | value => .error ("unsupported VLESS security mode: " ++ value)

def VlessTransportKind.ofText : String → Except String VlessTransportKind
  | "tcp" | "raw" => .ok .tcp
  | "ws" | "websocket" => .ok .webSocket
  | "grpc" | "gun" | "multi" => .ok .grpc
  | "h2" | "http" => .ok .h2
  | "httpupgrade" | "http-upgrade" | "http_upgrade" => .ok .httpUpgrade
  | "xhttp" | "splithttp" | "split-http" | "split_http" => .ok .xHttp
  | value => .error ("unsupported VLESS transport: " ++ value)

def XHttpMode.ofText : String → Except String XHttpMode
  | "auto" | "" => .ok .auto
  | "stream-one" | "stream_one" => .ok .streamOne
  | "stream-up" | "stream_up" => .ok .streamUp
  | "packet-up" | "packet_up" => .ok .packetUp
  | value => .error ("unsupported VLESS XHTTP mode: " ++ value)

def XHttpVersion.ofText : String → Except String XHttpVersion
  | "auto" | "" => .ok .auto
  | "1" | "1.1" | "h1" | "http/1.1" => .ok .h1
  | "2" | "h2" | "http/2" => .ok .h2
  | "3" | "h3" | "http/3" => .ok .h3
  | value => .error ("unsupported VLESS XHTTP HTTP version: " ++ value)

/-- `node.parameter(a).or_else(|| node.parameter(b))` and so on. -/
def KernelNode.firstOf (node : KernelNode) (keys : List String) : Option String :=
  keys.findSome? node.parameter

def VlessTransport.fromNode (node : KernelNode) : Except String VlessTransport := do
  let kind ← VlessTransportKind.ofText ((node.firstOf ["type", "network"]).getD "tcp").toLower
  let path := (node.firstOf ["path", "ws-path", "h2-path", "xhttp-path"]).getD "/"
  let serviceName := (node.firstOf ["serviceName", "service_name", "grpc-service-name"]).getD "Tun"
  let mode ← XHttpMode.ofText ((node.parameter "mode").getD "auto")
  let httpVersion ← XHttpVersion.ofText
    ((node.firstOf ["httpVersion", "http_version", "alpn"]).getD "auto").toLower
  let scMaxEachPostBytes ← parseUsizeParam node
    ["scMaxEachPostBytes", "sc_max_each_post_bytes", "xhttp-post-bytes"] (256 * 1024)
  let scMinPostsIntervalMs ← parseU64Param node
    ["scMinPostsIntervalMs", "sc_min_posts_interval_ms"] 0
  let maxConcurrency ← parseI32Param node ["xmuxMaxConcurrency"] 0
  let maxConnections ← parseI32Param node ["xmuxMaxConnections"] 0
  let cMaxReuseTimes ← parseI32Param node ["xmuxCMaxReuseTimes"] 0
  let hMaxRequestTimes ← parseI32Param node ["xmuxHMaxRequestTimes"] 0
  let hMaxReusableSecs ← parseU64Param node ["xmuxHMaxReusableSecs"] 0
  return {
    kind := kind
    host := node.firstOf ["host", "ws-host", "authority"]
    path := path
    serviceName := serviceName
    authority := node.parameter "authority"
    mode := mode
    httpVersion := httpVersion
    scMaxEachPostBytes := scMaxEachPostBytes
    scMinPostsIntervalMs := scMinPostsIntervalMs
    xmux := ⟨maxConcurrency, maxConnections, cMaxReuseTimes, hMaxRequestTimes, hMaxReusableSecs⟩ }

def VlessConfig.fromNode? (node : KernelNode) : Option (Except String VlessConfig) := do
  let uuid ← parseUuid? node.userId
  return do
    let uuid ← uuid
    let security ← VlessSecurity.fromNode node
    let transport ← VlessTransport.fromNode node
    return {
      server := node.server
      serverPort := node.serverPort
      uuid := uuid
      sni := node.parameter "sni"
      flow := node.parameter "flow"
      security := security
      transport := transport
      insecure := match node.parameter "insecure" with
        | some value => value = "1" ∨ value = "true" ∨ value = "yes"
        | none => false }

/-! ## No panic -/

/-- Two of some ASCII characters. -/
theorem strSlice?_ascii {text : List Char} {i : Nat} (h : ∀ c ∈ text, c.utf8Size = 1)
    (hi : i + 2 ≤ text.length) :
    ∃ a ∈ text, ∃ b ∈ text, strSlice? text i (i + 2) = some [a, b] := by
  obtain ⟨front,a,b,back,rfl,hfront⟩ :
      ∃ front a b back, text = front ++ a :: b :: back ∧ front.length = i := by
    refine ⟨text.take i,text[i],text[i+1],text.drop (i + 2),?_,List.length_take_of_le (by omega)⟩
    rw [List.getElem_cons_drop, List.getElem_cons_drop, List.take_append_drop]
  have hone (c : Char) (hc : c ∈ a :: b :: back) : c.utf8Size = 1 :=
    h c (List.mem_append_right _ hc)
  have hlen : (utf8 front).length = i := by
    rw [utf8_length_ascii fun c hc => h c (List.mem_append_left _ hc), hfront]
  have ha := hone a (by simp)
  have hb := hone b (by simp)
  refine ⟨a,by simp,b,by simp,?_⟩
  rw [← hlen, strSlice?_append, splitAtByte?_cons (by omega), ha, splitAtByte?_cons (by omega), hb,
    splitAtByte?]
  rfl

theorem uuidLoop?_returns {compact : List Char} (h : ∀ c ∈ compact, isAsciiHexdigit c = true)
    (hlen : compact.length = 32) (indices : List (Fin 16)) (bytes : Uuid) :
    ∃ uuid, uuidLoop? compact indices bytes = some (.ok uuid) := by
  induction indices generalizing bytes with
  | nil => exact ⟨bytes,rfl⟩
  | cons index indices ih =>
    have hindex := index.2
    obtain ⟨a,ha,b,hb,hslice⟩ := strSlice?_ascii (i := index * 2)
      (fun c hc => isAsciiHexdigit_size (h c hc)) (by omega)
    obtain ⟨-,-,hparse⟩ | ⟨hno,-⟩ := parseHexByte_pair a b
    · rw [uuidLoop?, hslice]
      simp only [hparse]
      exact ih _
    · exact absurd ⟨.inl (h a ha),h b hb⟩ hno

/-- The slices lie between digits, which are checked in front of them. -/
theorem parseUuid?_returns (value : String) : ∃ r, parseUuid? value = some r := by
  rw [parseUuid?]
  split
  case isTrue => exact ⟨_,rfl⟩
  case isFalse h =>
    obtain ⟨hlen,hall⟩ := not_or.mp h
    rw [Bool.not_eq_false, List.all_eq_true] at hall
    rw [not_not, utf8_length_ascii fun c hc => isAsciiHexdigit_size (hall c hc)] at hlen
    obtain ⟨uuid,huuid⟩ := uuidLoop?_returns hall hlen (List.finRange 16) (Vector.replicate 16 0)
    exact ⟨_,huuid⟩

theorem fromNode?_returns (node : KernelNode) : ∃ r, VlessConfig.fromNode? node = some r := by
  obtain ⟨r,hr⟩ := parseUuid?_returns node.userId
  rw [VlessConfig.fromNode?, hr]
  exact ⟨_,rfl⟩

end AtlasKernel.Vless
