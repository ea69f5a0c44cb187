import AtlasKernel.Lib.Text
import AtlasKernel.Vless.Xudp

/-! The HTTP inbound: the head of the first request picks the target of the connection and
is rewritten; what the client sends behind it is relayed as it is. Source: `main.rs`,
`flow.rs`. -/
namespace AtlasKernel.HttpProxy
open AtlasKernel.Lib AtlasKernel.Vless

abbrev Text := List Char

/-- The errors with what their texts show. -/
inductive HttpError where
  | unsupportedFirstByte (value : UInt8)
  | unexpectedEof
  | headerTooLarge
  | invalidUtf8
  | missingHostHeader
  | invalidIpv6Authority
  | invalidPort (text : Text)
deriving DecidableEq, Repr

abbrev Result (β : Type) := Except HttpError β

/-! ## The head -/

/-- The head with the rest of what the client sends, a byte at a time. -/
def readHttpHead (buffer : Bytes) : Bytes → Result (Bytes × Bytes)
  | [] => .error (if buffer.length < 65536 then .unexpectedEof else .headerTooLarge)
  | byte :: client =>
    if buffer.length < 65536 then
      let buffer := buffer ++ [byte]
      if [13, 10, 13, 10].isSuffixOf buffer then .ok (buffer, client) else readHttpHead buffer client
    else .error .headerTooLarge

def parsePort (text : Text) : Result UInt16 :=
  match parseUnsigned 65535 text with
  | some port => .ok (UInt16.ofNat port)
  | none => .error (.invalidPort text)

def parseHostPort (value : Text) (defaultPort : UInt16) : Result TargetAddress :=
  match stripPrefix ['['] value with
  | some stripped =>
    match splitOnce ']' stripped with
    | none => .error .invalidIpv6Authority
    | some (host, rest) =>
      match stripPrefix [':'] rest with
      | some port => (parsePort port).map fun port => ⟨String.ofList host, port⟩
      | none => .ok ⟨String.ofList host, defaultPort⟩
  | none =>
    match rsplitOnce ':' value with
    | some (host, port) =>
      if ':' ∈ host then .ok ⟨String.ofList value, defaultPort⟩
      else (parsePort port).map fun port => ⟨String.ofList host, port⟩
    | none => .ok ⟨String.ofList value, defaultPort⟩

def splitAuthorityPath (value : Text) : Text × Text :=
  match value.dropWhile (· ≠ '/') with
  | [] => (value, ['/'])
  | path => (value.takeWhile (· ≠ '/'), path)

/-- The value of a line that starts as the host header does in one of two spellings. -/
def hostValue (line : Text) : Option Text :=
  (stripPrefix "Host:".toList line).or (stripPrefix "host:".toList line)

def parseHttpForwardTarget (uri request : Text) : Result (TargetAddress × Text) :=
  match stripPrefix "http://".toList uri with
  | some rest =>
    let (authority, path) := splitAuthorityPath rest
    (parseHostPort authority 80).map fun target => (target, path)
  | none =>
    match (splitCrlf request).findSome? hostValue with
    | none => .error .missingHostHeader
    | some host => (parseHostPort (trim host) 80).map fun target => (target, uri)

/-- `format!("{method} {uri} {version}")` -/
def requestLine (method uri version : Text) : Text := method ++ ' ' :: uri ++ ' ' :: version

def rewriteHttpRequest (request method originalUri version originUri : Text) : Text :=
  replaceFirst (requestLine method originalUri version) (requestLine method originUri version) request

/-! ## The connection -/

inductive InboundKind where
  | httpConnect | httpForward
deriving DecidableEq, Repr

/-- A connection that was opened, with the bytes it is given until the client is done. -/
structure Flow where
  inbound : InboundKind
  target : TargetAddress
  outbound : Bytes
deriving DecidableEq, Repr

/-- `handle_http`, where the outbound connection is opened without an error. -/
def handleHttp (first : UInt8) (client : Bytes) : Result Flow := do
  let (head, client) ← readHttpHead [first] client
  match fromUtf8 head with
  | .error _ => .error .invalidUtf8
  | .ok request =>
    let request := request.toList
    let parts := splitWhitespace ((splitCrlf request).headD [])
    let method := parts.getD 0 []
    let uri := parts.getD 1 []
    let version := parts.getD 2 "HTTP/1.1".toList
    if toAsciiLowercase method = "connect".toList then
      let target ← parseHostPort uri 443
      .ok ⟨.httpConnect, target, client⟩
    else
      let (target, originUri) ← parseHttpForwardTarget uri request
      let rewritten := rewriteHttpRequest request method uri version originUri
      -- the flow writes the head first and then relays
      .ok ⟨.httpForward, target, utf8 rewritten ++ client⟩

/-- The first bytes that go to `handle_http`. -/
def httpFirstBytes : Bytes := utf8 "CGPHDOT".toList

/-- `handle_client` for a client that does not speak SOCKS. -/
def handleClient : Bytes → Result Flow
  | [] => .error .unexpectedEof
  | first :: client =>
    if first ∈ httpFirstBytes then handleHttp first client
    else .error (.unsupportedFirstByte first)

end AtlasKernel.HttpProxy
