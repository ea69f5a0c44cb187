import AtlasKernel.Lib.Text
import AtlasKernel.Shadowsocks.Ssr.AuthAes128
import AtlasKernel.Shadowsocks.Ssr.AuthChain

/-! The UDP packets of the native SSR protocols, and the server's side of them. The HMACs and
the hashes of the user keys are any functions, RC4 is any generator of a key stream.
Source: `shadowsocks/ssr.rs`, `shadowsocks/ssr/protocol/auth_chain.rs`; the server's side is
that of `shadowsocks/tests.rs`. -/
namespace AtlasKernel.Shadowsocks.Ssr.Udp
open AtlasKernel.Lib
variable {ρ : Type}

/-! ## Slices, where `none` is a panic -/

/-- `&bytes[..n]` -/
def sliceTo (bytes : Bytes) (n : Nat) : Option Bytes :=
  if n ≤ bytes.length then some (bytes.take n) else none

/-- `&bytes[n..]` -/
def sliceFrom (bytes : Bytes) (n : Nat) : Option Bytes :=
  if n ≤ bytes.length then some (bytes.drop n) else none

/-- `a - b` of two lengths, and `checked_sub` -/
def lessBy (a b : Nat) : Option Nat := if b ≤ a then some (a - b) else none

@[simp] theorem sliceTo_append (as bs : Bytes) : sliceTo (as ++ bs) as.length = some as := by
  simp [sliceTo]

@[simp] theorem sliceFrom_append (as bs : Bytes) : sliceFrom (as ++ bs) as.length = some bs := by
  simp [sliceFrom]

theorem lessBy_some {a b : Nat} (h : b ≤ a) : lessBy a b = some (a - b) := if_pos h

/-- A packet is cut in front of its last bytes. -/
theorem exists_last {bytes : Bytes} {n : Nat} (h : n ≤ bytes.length) :
    ∃ front last, bytes = front ++ last ∧ last.length = n :=
  ⟨bytes.take (bytes.length - n),bytes.drop (bytes.length - n),
    (List.take_append_drop _ _).symm,by rw [List.length_drop]; omega⟩

theorem lessBy_last (front : Bytes) {last : Bytes} {n : Nat} (h : last.length = n) :
    lessBy (front ++ last).length n = some front.length := by
  subst h
  simp [lessBy]

/-! ## Users -/

structure PacketCrypto (ρ : Type) extends ChainCrypto ρ where
  hmacSha1 : HmacSha1
  md5 : Bytes → Vector UInt8 16
  sha1 : Bytes → Vector UInt8 20

def digest (crypto : PacketCrypto ρ) (kind : SsrHmacKind) (key data : Bytes) : Bytes :=
  match kind with
  | .md5 => (crypto.hmacMd5 key data).toList
  | .sha1 => (crypto.hmacSha1 key data).toList

theorem digest_length (crypto : PacketCrypto ρ) (kind : SsrHmacKind) (key data : Bytes) :
    4 ≤ (digest crypto kind key data).length := by
  cases kind <;> simp [digest]

def hash (crypto : PacketCrypto ρ) (kind : SsrHmacKind) (data : Bytes) : Bytes :=
  match kind with
  | .md5 => (crypto.md5 data).toList
  | .sha1 => (crypto.sha1 data).toList

structure SsrUserData where
  userKey : Bytes
  userId : Vector UInt8 4
deriving DecidableEq, Repr

/-- `auth_aes` and `auth_chain` are alike but for what they make of the password. `draw` is
the id drawn for a client that is no user. -/
def SsrUserData.ofParam (keyOf : Bytes → Bytes) (draw : Vector UInt8 4) (key : Bytes)
    (param : List Char) : SsrUserData :=
  let user : SsrUserData := match splitOnce ':' param with
    | some (id, password) =>
      match parseUnsigned 4294967295 id with
      | some id => ⟨keyOf (utf8 password), ⟨(le32 id).toArray, by simp⟩⟩
      | none => ⟨[], Vector.replicate 4 0⟩
    | none => ⟨[], Vector.replicate 4 0⟩
  if user.userKey = [] then ⟨key, draw⟩ else user

def SsrUserData.authAes (crypto : PacketCrypto ρ) (kind : SsrHmacKind) :
    Vector UInt8 4 → Bytes → List Char → SsrUserData := .ofParam (hash crypto kind)

def SsrUserData.authChain : Vector UInt8 4 → Bytes → List Char → SsrUserData := .ofParam id

/-! ## auth_aes128 -/

/-- What the packets use of the codec. -/
structure AuthAes128Codec where
  key : Bytes
  hmacKind : SsrHmacKind
  user : SsrUserData
deriving DecidableEq, Repr

namespace AuthAes128Codec
variable (crypto : PacketCrypto ρ)

def encodePacket (s : AuthAes128Codec) (payload : Bytes) : Bytes :=
  let output := payload ++ s.user.userId.toList
  output ++ (digest crypto s.hmacKind s.user.userKey output).take 4

def decodePacket (s : AuthAes128Codec) (payload : Bytes) : Option (IoResult Bytes) :=
  if payload.length < 4 then
    some (.error ⟨.invalidData, "ShadowsocksR auth_aes128 UDP packet is too short"⟩)
  else do
    let dataLen ← lessBy payload.length 4
    let data ← sliceTo payload dataLen
    let expected ← sliceTo (digest crypto s.hmacKind s.key data) 4
    let tag ← sliceFrom payload dataLen
    if expected ≠ tag then
      some (.error ⟨.invalidData, "ShadowsocksR auth_aes128 UDP checksum mismatch"⟩)
    else some (.ok data)

variable {crypto}

/-- What a packet that is long enough is decoded to. -/
theorem decodePacket_append (s : AuthAes128Codec) (data : Bytes) {tag : Bytes}
    (h : tag.length = 4) :
    s.decodePacket crypto (data ++ tag) =
      some (if (digest crypto s.hmacKind s.key data).take 4 = tag then .ok data
        else .error ⟨.invalidData, "ShadowsocksR auth_aes128 UDP checksum mismatch"⟩) := by
  have hlong : ¬ (data ++ tag).length < 4 := by
    rw [List.length_append]
    omega
  have htag : sliceTo (digest crypto s.hmacKind s.key data) 4 =
      some ((digest crypto s.hmacKind s.key data).take 4) :=
    if_pos (digest_length crypto s.hmacKind s.key data)
  rw [decodePacket, if_neg hlong, lessBy_last data h]
  simp only [Option.bind_eq_bind, Option.bind_some, sliceTo_append, sliceFrom_append, htag]
  by_cases heq : (digest crypto s.hmacKind s.key data).take 4 = tag
  · rw [if_neg (not_not.mpr heq), if_pos heq]
  · rw [if_pos heq, if_neg heq]

end AuthAes128Codec

/-! ## auth_chain -/

namespace AuthChainCodec
variable (crypto : PacketCrypto ρ)

def udpRandLen (s : AuthChainCodec ρ) (hash : Bytes) (client : Bool) : Nat × AuthChainCodec ρ :=
  let (randLen, random) := (XorShift128Plus.initFromBin hash).below 127
  (randLen, if client then { s with randomClient := random } else { s with randomServer := random })

/-- What is drawn for a packet: `auth_data`, and the padding. -/
structure PacketDraw where
  authData : Vector UInt8 3
  padding : Draw

def encodePacket (s : AuthChainCodec ρ) (draw : PacketDraw) (payload : Bytes) :
    Bytes × AuthChainCodec ρ :=
  let md5Data := crypto.hmacMd5 s.key draw.authData.toList
  let (randLen, s) := udpRandLen s md5Data.toList true
  let encrypted := crypto.rc4.output (crypto.initRc4 s.userKey md5Data) payload
  let uid := List.zipWith (· ^^^ ·) s.userId.toList (md5Data.toList.take 4)
  let output := encrypted ++ pushRandomBytes draw.padding randLen ++ draw.authData.toList ++ uid
  (output ++ [(crypto.hmacMd5 s.userKey output)[0]], s)

def decodePacket (s : AuthChainCodec ρ) (payload : Bytes) :
    Option (IoResult Bytes × AuthChainCodec ρ) :=
  if payload.length < 9 then
    some (.error ⟨.invalidData, "ShadowsocksR auth_chain UDP packet is too short"⟩, s)
  else do
    let macPos ← lessBy payload.length 1
    let mac := crypto.hmacMd5 s.userKey (← sliceTo payload macPos)
    let tag ← payload[macPos]?
    if mac[0] ≠ tag then
      some (.error ⟨.invalidData, "ShadowsocksR auth_chain UDP checksum mismatch"⟩, s)
    else do
      let authStart ← lessBy payload.length 8
      let md5Data := crypto.hmacMd5 s.key (← sliceFrom (← sliceTo payload macPos) authStart)
      let (randLen, s) := udpRandLen s md5Data.toList false
      match lessBy authStart randLen with
      | none => some (.error ⟨.invalidData, "ShadowsocksR auth_chain UDP padding is invalid"⟩, s)
      | some dataEnd => do
        let body ← sliceTo payload dataEnd
        some (.ok (crypto.rc4.output (crypto.initRc4 s.userKey md5Data) body), s)

variable {crypto}

/-- What a packet that is long enough is decoded to: `front` is the data with the padding. -/
theorem decodePacket_append (s : AuthChainCodec ρ) {front footer : Bytes} (tag : UInt8)
    (hfront : front ≠ []) (hfooter : footer.length = 7) :
    (decodePacket crypto s (front ++ footer ++ [tag])).map Prod.fst =
      let md5Data := crypto.hmacMd5 s.key footer
      let randLen := (udpRandLen s md5Data.toList false).1
      some (if (crypto.hmacMd5 s.userKey (front ++ footer))[0] ≠ tag then
          .error ⟨.invalidData, "ShadowsocksR auth_chain UDP checksum mismatch"⟩
        else if randLen ≤ front.length then
          .ok (crypto.rc4.output (crypto.initRc4 s.userKey md5Data)
            (front.take (front.length - randLen)))
        else .error ⟨.invalidData, "ShadowsocksR auth_chain UDP padding is invalid"⟩) := by
  have hpos : 0 < front.length := List.length_pos_iff.mpr hfront
  have hlong : ¬ (front ++ footer ++ [tag]).length < 9 := by
    simp [hfooter]
    omega
  have hmac : lessBy (front ++ footer ++ [tag]).length 1 = some (front ++ footer).length :=
    lessBy_last _ rfl
  have hauth : lessBy (front ++ footer ++ [tag]).length 8 = some front.length := by
    rw [List.append_assoc]
    exact lessBy_last front (by simp [hfooter])
  have htag : (front ++ footer ++ [tag])[(front ++ footer).length]? = some tag := by simp
  rw [decodePacket, if_neg hlong, hmac, hauth]
  simp only [Option.bind_eq_bind, Option.bind_some, sliceTo_append, sliceFrom_append, htag]
  by_cases heq : (crypto.hmacMd5 s.userKey (front ++ footer))[0] ≠ tag
  · rw [if_pos heq, if_pos heq]
    rfl
  · rw [if_neg heq, if_neg heq]
    by_cases hle : (udpRandLen s (crypto.hmacMd5 s.key footer).toList false).1 ≤ front.length
    · have hbody : sliceTo (front ++ footer ++ [tag])
          (front.length - (udpRandLen s (crypto.hmacMd5 s.key footer).toList false).1) =
          some (front.take
            (front.length - (udpRandLen s (crypto.hmacMd5 s.key footer).toList false).1)) := by
        rw [sliceTo, if_pos (by simp only [List.length_append]; omega), List.append_assoc,
          List.take_append_of_le_length (Nat.sub_le _ _)]
      rw [lessBy_some hle, if_pos hle]
      simp only [hbody, Option.bind_some, Option.map_some]
      rfl
    · have hnone : lessBy front.length
          (udpRandLen s (crypto.hmacMd5 s.key footer).toList false).1 = none := if_neg hle
      rw [hnone, if_neg hle]
      rfl

end AuthChainCodec

/-! ## The codec of a protocol -/

/-- `SsrProtocol`, but for `Origin`, which has no native codec. -/
inductive SsrProtocol where
  | verifySimple
  | verifySha1
  | authSimple
  | authSha1
  | authSha1V2
  | authSha1V4
  | authAes128Md5
  | authAes128Sha1
  | authChainA
  | authChainB
  | authChainC
  | authChainD
  | authChainE
  | authChainF
deriving DecidableEq, Repr

/-- The packets of the codecs without a UDP wrapper are the bodies. -/
inductive SsrProtocolCodec (ρ : Type) where
  | plain
  | authAes128 (codec : AuthAes128Codec)
  | authChain (codec : Ssr.AuthChainCodec ρ)

/-- What is drawn or read from the clock when a codec is made. -/
structure CodecDraw where
  userId : Vector UInt8 4
  connectionId : UInt32
  timestamp : UInt32

def authChainFInterval (protocolParam : List Char) : Nat :=
  let interval := match splitOnce '#' protocolParam with
    | some (_, interval) => interval
    | none => protocolParam
  match parseUnsigned 18446744073709551615 (trim interval) with
  | some value => if 0 < value then value else 60 * 60 * 24
  | none => 60 * 60 * 24

/-- `ssr_udp_codec`: the IV is empty. -/
def ssrUdpCodec (crypto : PacketCrypto ρ) (draw : CodecDraw) (protocol : SsrProtocol) (key : Bytes)
    (protocolParam : List Char) : SsrProtocolCodec ρ :=
  let aes (kind : SsrHmacKind) : SsrProtocolCodec ρ :=
    .authAes128 ⟨key, kind, .authAes crypto kind draw.userId key protocolParam⟩
  let chain (variant : AuthChainVariant) : SsrProtocolCodec ρ :=
    let user := SsrUserData.authChain draw.userId key protocolParam
    .authChain (.new key [] user.userKey user.userId draw.connectionId variant
      (authChainFInterval protocolParam) draw.timestamp)
  match protocol with
  | .verifySimple | .verifySha1 | .authSimple | .authSha1 | .authSha1V2 | .authSha1V4 => .plain
  | .authAes128Md5 => aes .md5
  | .authAes128Sha1 => aes .sha1
  | .authChainA => chain .A
  | .authChainB => chain .B
  | .authChainC => chain .C
  | .authChainD => chain .D
  | .authChainE => chain .E
  | .authChainF => chain .F

namespace SsrProtocolCodec
variable (crypto : PacketCrypto ρ)

def encodePacket (draw : AuthChainCodec.PacketDraw) (payload : Bytes) :
    SsrProtocolCodec ρ → Bytes × SsrProtocolCodec ρ
  | .plain => (payload, .plain)
  | .authAes128 codec => (codec.encodePacket crypto payload, .authAes128 codec)
  | .authChain codec =>
    let (output, codec) := AuthChainCodec.encodePacket crypto codec draw payload
    (output, .authChain codec)

def decodePacket (payload : Bytes) :
    SsrProtocolCodec ρ → Option (IoResult Bytes × SsrProtocolCodec ρ)
  | .plain => some (.ok payload, .plain)
  | .authAes128 codec => (codec.decodePacket crypto payload).map fun r => (r, .authAes128 codec)
  | .authChain codec =>
    (AuthChainCodec.decodePacket crypto codec payload).map fun (r, codec) => (r, .authChain codec)

/-- The user key, where packets are tagged with it. -/
def userKey : SsrProtocolCodec ρ → Bytes
  | .plain => []
  | .authAes128 codec => codec.user.userKey
  | .authChain codec => codec.userKey

/-- The user id, where packets carry it. -/
def userId : SsrProtocolCodec ρ → Option Bytes
  | .plain => none
  | .authAes128 codec => some codec.user.userId.toList
  | .authChain codec => some codec.userId.toList

end SsrProtocolCodec

/-! ## The server -/

/-- The server has its own key and that of the user; without users these are the same, as in
the tests. -/
structure Server where
  key : Bytes
  userKey : Bytes

namespace Server
variable (crypto : PacketCrypto ρ)

def udpRandLen (md5Data : Bytes) : Nat := ((XorShift128Plus.initFromBin md5Data).below 127).1

def decodeAes (server : Server) (kind : SsrHmacKind) (packet : Bytes) :
    Option (Bytes × Option Bytes) :=
  if packet.length < 8 then none
  else do
    let dataLen ← lessBy packet.length 4
    let userDataLen ← lessBy dataLen 4
    let data ← sliceTo packet dataLen
    let expected ← sliceTo (digest crypto kind server.userKey data) 4
    if expected ≠ (← sliceFrom packet dataLen) then none
    else some (← sliceTo packet userDataLen, some (← sliceFrom data userDataLen))

def decodeChain (server : Server) (packet : Bytes) : Option (Bytes × Option Bytes) :=
  if packet.length < 9 then none
  else do
    let macPos ← lessBy packet.length 1
    let mac := crypto.hmacMd5 server.userKey (← sliceTo packet macPos)
    if mac[0] ≠ (← packet[macPos]?) then none
    else
      let authStart ← lessBy packet.length 8
      let md5Data := crypto.hmacMd5 server.key
        (← sliceFrom (← sliceTo packet (authStart + 3)) authStart)
      let dataEnd ← lessBy authStart (udpRandLen md5Data.toList)
      let body ← sliceTo packet dataEnd
      let uid ← sliceFrom (← sliceTo packet macPos) (authStart + 3)
      some (crypto.rc4.output (crypto.initRc4 server.userKey md5Data) body,
        some (List.zipWith (· ^^^ ·) uid (md5Data.toList.take 4)))

variable {crypto}

/-- What the server makes of a packet that is long enough: `front` is the data with the
padding. -/
theorem decodeChain_append (server : Server) {front authData uid : Bytes} (tag : UInt8)
    (hfront : front ≠ []) (hauthData : authData.length = 3) (huid : uid.length = 4)
    (htag : (crypto.hmacMd5 server.userKey (front ++ authData ++ uid))[0] = tag)
    (hrand : udpRandLen (crypto.hmacMd5 server.key authData).toList ≤ front.length) :
    server.decodeChain crypto (front ++ authData ++ uid ++ [tag]) =
      let md5Data := crypto.hmacMd5 server.key authData
      some (crypto.rc4.output (crypto.initRc4 server.userKey md5Data)
          (front.take (front.length - udpRandLen md5Data.toList)),
        some (List.zipWith (· ^^^ ·) uid (md5Data.toList.take 4))) := by
  have hpos : 0 < front.length := List.length_pos_iff.mpr hfront
  have hlong : ¬ (front ++ authData ++ uid ++ [tag]).length < 9 := by
    simp [hauthData, huid]
    omega
  have hmac : lessBy (front ++ authData ++ uid ++ [tag]).length 1 =
      some (front ++ authData ++ uid).length := lessBy_last _ rfl
  have hauth : lessBy (front ++ authData ++ uid ++ [tag]).length 8 = some front.length := by
    rw [List.append_assoc, List.append_assoc]
    exact lessBy_last front (by simp [hauthData, huid])
  have hlast : (front ++ authData ++ uid ++ [tag])[(front ++ authData ++ uid).length]? =
      some tag := by simp
  have hthree : front.length + 3 = (front ++ authData).length := by simp [hauthData]
  have hto : sliceTo (front ++ authData ++ uid ++ [tag]) (front ++ authData).length =
      some (front ++ authData) := by
    rw [List.append_assoc (front ++ authData)]
    exact sliceTo_append _ _
  have hbody : sliceTo (front ++ authData ++ uid ++ [tag])
      (front.length - udpRandLen (crypto.hmacMd5 server.key authData).toList) =
      some (front.take
        (front.length - udpRandLen (crypto.hmacMd5 server.key authData).toList)) := by
    rw [sliceTo, if_pos (by simp only [List.length_append]; omega), List.append_assoc,
      List.append_assoc, List.take_append_of_le_length (Nat.sub_le _ _)]
  rw [decodeChain, if_neg hlong, hmac, hauth]
  simp only [Option.bind_eq_bind, Option.bind_some, sliceTo_append, sliceFrom_append, hlast, hthree,
    hto, lessBy_some hrand, hbody]
  rw [if_neg (not_not.mpr htag)]

variable (crypto)

/-- `decode_ssr_udp_request_for_server`, and the user id of the request; `none` is an assertion
that fails. -/
def decodeRequest (server : Server) (protocol : SsrProtocol) (packet : Bytes) :
    Option (Bytes × Option Bytes) :=
  match protocol with
  | .verifySimple | .verifySha1 | .authSimple | .authSha1 | .authSha1V2 | .authSha1V4 =>
    some (packet, none)
  | .authAes128Md5 => server.decodeAes crypto .md5 packet
  | .authAes128Sha1 => server.decodeAes crypto .sha1 packet
  | .authChainA | .authChainB | .authChainC | .authChainD | .authChainE | .authChainF =>
    server.decodeChain crypto packet

/-- What is drawn for a response: `footer`, and the padding. -/
structure ResponseDraw where
  footer : Vector UInt8 7
  padding : Draw

def encodeAes (server : Server) (kind : SsrHmacKind) (body : Bytes) : Bytes :=
  body ++ (digest crypto kind server.key body).take 4

def encodeChain (server : Server) (draw : ResponseDraw) (body : Bytes) : Bytes :=
  let md5Data := crypto.hmacMd5 server.key draw.footer.toList
  let randLen := udpRandLen md5Data.toList
  let encrypted := crypto.rc4.output (crypto.initRc4 server.userKey md5Data) body
  let output := encrypted ++ pushRandomBytes draw.padding randLen ++ draw.footer.toList
  output ++ [(crypto.hmacMd5 server.userKey output)[0]]

/-- `encode_ssr_udp_response_for_client` -/
def encodeResponse (server : Server) (protocol : SsrProtocol) (draw : ResponseDraw) (body : Bytes) :
    Bytes :=
  match protocol with
  | .verifySimple | .verifySha1 | .authSimple | .authSha1 | .authSha1V2 | .authSha1V4 => body
  | .authAes128Md5 => server.encodeAes crypto .md5 body
  | .authAes128Sha1 => server.encodeAes crypto .sha1 body
  | .authChainA | .authChainB | .authChainC | .authChainD | .authChainE | .authChainF =>
    server.encodeChain crypto draw body

/-- The packet ends in the tag that the server puts behind its responses. -/
def Tagged (server : Server) (protocol : SsrProtocol) (packet : Bytes) : Prop :=
  let aes (kind : SsrHmacKind) : Prop :=
    ∃ data, packet = data ++ (digest crypto kind server.key data).take 4
  match protocol with
  | .verifySimple | .verifySha1 | .authSimple | .authSha1 | .authSha1V2 | .authSha1V4 => True
  | .authAes128Md5 => aes .md5
  | .authAes128Sha1 => aes .sha1
  | .authChainA | .authChainB | .authChainC | .authChainD | .authChainE | .authChainF =>
    ∃ data, packet = data ++ [(crypto.hmacMd5 server.userKey data)[0]]

end Server

/-! ## Both sides -/

def SsrProtocol.isAuthChain : SsrProtocol → Bool
  | .authChainA | .authChainB | .authChainC | .authChainD | .authChainE | .authChainF => true
  | _ => false

/-- An auth_chain packet without data and without padding: both sides take it for too short. -/
def Bare (crypto : PacketCrypto ρ) (protocol : SsrProtocol) (key footer body : Bytes) : Prop :=
  protocol.isAuthChain = true ∧ body = [] ∧
    Server.udpRandLen (crypto.hmacMd5 key footer).toList = 0

instance (crypto : PacketCrypto ρ) (protocol : SsrProtocol) (key footer body : Bytes) :
    Decidable (Bare crypto protocol key footer body) :=
  inferInstanceAs (Decidable (_ ∧ _ ∧ _))

/-- The wrappers of the codec and the server are inverse to each other. -/
structure Inverse (crypto : PacketCrypto ρ) (protocol : SsrProtocol) (codec : SsrProtocolCodec ρ)
    (server : Server) : Prop where
  request : ∀ (draw : AuthChainCodec.PacketDraw) (body : Bytes),
    server.decodeRequest crypto protocol (codec.encodePacket crypto draw body).1 =
      if Bare crypto protocol server.key draw.authData.toList body then none
      else some (body, codec.userId)
  response : ∀ (draw : Server.ResponseDraw) (body : Bytes),
    (codec.decodePacket crypto (server.encodeResponse crypto protocol draw body)).map Prod.fst =
      some (if Bare crypto protocol server.key draw.footer.toList body then
          .error ⟨.invalidData, "ShadowsocksR auth_chain UDP packet is too short"⟩
        else .ok body)
  rejects : ∀ packet : Bytes, ∃ r, (codec.decodePacket crypto packet).map Prod.fst = some r ∧
    (¬ server.Tagged crypto protocol packet → ∃ e, r = .error e)

section
variable {crypto : PacketCrypto ρ}

theorem Bare.neg {protocol : SsrProtocol} {key footer body : Bytes}
    (h : protocol.isAuthChain = false) :
    ¬ Bare crypto protocol key footer body := by
  rintro ⟨hchain,-⟩
  rw [h] at hchain
  cases hchain

theorem aes_request (s : AuthAes128Codec) (body : Bytes) :
    Server.decodeAes crypto ⟨s.key, s.user.userKey⟩ s.hmacKind (s.encodePacket crypto body) =
      some (body, some s.user.userId.toList) := by
  have htag : ((digest crypto s.hmacKind s.user.userKey (body ++ s.user.userId.toList)).take
      4).length = 4 := List.length_take_of_le (digest_length ..)
  have hexpected : sliceTo (digest crypto s.hmacKind s.user.userKey (body ++ s.user.userId.toList)) 4 =
      some ((digest crypto s.hmacKind s.user.userKey (body ++ s.user.userId.toList)).take 4) :=
    if_pos (digest_length ..)
  rw [AuthAes128Codec.encodePacket]
  generalize (digest crypto s.hmacKind s.user.userKey (body ++ s.user.userId.toList)).take 4 = tag
    at htag hexpected
  have hlong : ¬ (body ++ s.user.userId.toList ++ tag).length < 8 := by
    simp [htag]
  have hbody : sliceTo (body ++ s.user.userId.toList ++ tag) body.length = some body := by
    rw [List.append_assoc]
    exact sliceTo_append _ _
  rw [Server.decodeAes, if_neg hlong, lessBy_last _ htag]
  simp only [Option.bind_eq_bind, Option.bind_some, lessBy_last body (Vector.length_toList),
    sliceTo_append, sliceFrom_append, hexpected, hbody]
  rw [if_neg (not_not.mpr rfl)]

theorem aes_response (s : AuthAes128Codec) (userKey body : Bytes) :
    s.decodePacket crypto (Server.encodeAes crypto ⟨s.key, userKey⟩ s.hmacKind body) =
      some (.ok body) := by
  have htag := List.length_take_of_le (digest_length crypto s.hmacKind s.key body)
  rw [Server.encodeAes, s.decodePacket_append body htag, if_pos rfl]

theorem aes_rejects (s : AuthAes128Codec) (packet : Bytes) :
    ∃ r, s.decodePacket crypto packet = some r ∧
      ((¬ ∃ data, packet = data ++ (digest crypto s.hmacKind s.key data).take 4) →
        ∃ e, r = .error e) := by
  by_cases hshort : packet.length < 4
  · exact ⟨_,if_pos hshort,fun _ => ⟨_,rfl⟩⟩
  · obtain ⟨data,tag,rfl,htag⟩ := exists_last (Nat.not_lt.mp hshort)
    refine ⟨_,s.decodePacket_append data htag,fun hbad => ?_⟩
    have hne : (digest crypto s.hmacKind s.key data).take 4 ≠ tag := by
      intro heq
      exact hbad ⟨data,by rw [heq]⟩
    exact ⟨_,if_neg hne⟩

theorem zipWith_xor_twice {as bs : Bytes} (h : as.length ≤ bs.length) :
    List.zipWith (· ^^^ ·) (List.zipWith (· ^^^ ·) as bs) bs = as := by
  induction as generalizing bs with
  | nil => rfl
  | cons a as ih =>
    cases bs with
    | nil => cases h
    | cons b bs =>
      exact congrArg₂ List.cons (xor_xor_cancel a b) (ih (Nat.le_of_succ_le_succ h))

/-- The data with the padding, as both sides send it. -/
def padded (crypto : PacketCrypto ρ) (userKey : Bytes) (md5Data : Vector UInt8 16) (padding : Draw)
    (body : Bytes) : Bytes :=
  crypto.rc4.output (crypto.initRc4 userKey md5Data) body ++
    pushRandomBytes padding (Server.udpRandLen md5Data.toList)

theorem padded_nil_iff (userKey : Bytes) (md5Data : Vector UInt8 16) (padding : Draw) (body : Bytes) :
    padded crypto userKey md5Data padding body = [] ↔
      body = [] ∧ Server.udpRandLen md5Data.toList = 0 := by
  simp only [← List.length_eq_zero_iff, padded, List.length_append, output_length,
    pushRandomBytes_length]
  omega

/-- The padding is taken off again, and the cipher with it. -/
theorem padded_decoded (userKey : Bytes) (md5Data : Vector UInt8 16) (padding : Draw) (body : Bytes) :
    Server.udpRandLen md5Data.toList ≤ (padded crypto userKey md5Data padding body).length ∧
      crypto.rc4.output (crypto.initRc4 userKey md5Data)
        ((padded crypto userKey md5Data padding body).take
          ((padded crypto userKey md5Data padding body).length -
            Server.udpRandLen md5Data.toList)) = body := by
  rw [padded, List.length_append, pushRandomBytes_length, Nat.add_sub_cancel, List.take_left]
  exact ⟨Nat.le_add_left _ _,xor_output_output ..⟩

theorem chain_request (s : Ssr.AuthChainCodec ρ) (draw : AuthChainCodec.PacketDraw) (body : Bytes) :
    Server.decodeChain crypto ⟨s.key, s.userKey⟩ (AuthChainCodec.encodePacket crypto s draw body).1 =
      if body = [] ∧ Server.udpRandLen (crypto.hmacMd5 s.key draw.authData.toList).toList = 0
        then none
      else some (body, some s.userId.toList) := by
  have hnil := @padded_nil_iff _ crypto s.userKey (crypto.hmacMd5 s.key draw.authData.toList)
    draw.padding body
  obtain ⟨hrand,hbody⟩ := @padded_decoded _ crypto s.userKey
    (crypto.hmacMd5 s.key draw.authData.toList) draw.padding body
  have huid : (List.zipWith (· ^^^ ·) s.userId.toList
      ((crypto.hmacMd5 s.key draw.authData.toList).toList.take 4)).length = 4 := by simp
  have hpacket : (AuthChainCodec.encodePacket crypto s draw body).1 =
      padded crypto s.userKey (crypto.hmacMd5 s.key draw.authData.toList) draw.padding body ++
        draw.authData.toList ++ List.zipWith (· ^^^ ·) s.userId.toList
          ((crypto.hmacMd5 s.key draw.authData.toList).toList.take 4) ++
        [(crypto.hmacMd5 s.userKey
          (padded crypto s.userKey (crypto.hmacMd5 s.key draw.authData.toList) draw.padding body ++
            draw.authData.toList ++ List.zipWith (· ^^^ ·) s.userId.toList
              ((crypto.hmacMd5 s.key draw.authData.toList).toList.take 4)))[0]] := rfl
  rw [hpacket]
  generalize padded crypto s.userKey (crypto.hmacMd5 s.key draw.authData.toList) draw.padding body =
    front at hnil hrand hbody
  by_cases hbare : front = []
  · have hshort : ([] ++ draw.authData.toList ++ List.zipWith (· ^^^ ·) s.userId.toList
        ((crypto.hmacMd5 s.key draw.authData.toList).toList.take 4) ++
        [(crypto.hmacMd5 s.userKey ([] ++ draw.authData.toList ++
          List.zipWith (· ^^^ ·) s.userId.toList
            ((crypto.hmacMd5 s.key draw.authData.toList).toList.take 4)))[0]]).length < 9 := by
      rw [List.length_append, List.length_append, huid]
      simp
    rw [if_pos (hnil.mp hbare), hbare]
    exact if_pos hshort
  · rw [if_neg (mt hnil.mpr hbare)]
    apply (Server.decodeChain_append ⟨s.key,s.userKey⟩ _ hbare Vector.length_toList huid rfl
      hrand).trans
    simp only [hbody]
    rw [zipWith_xor_twice (by simp)]

theorem chain_response (s : Ssr.AuthChainCodec ρ) (draw : Server.ResponseDraw) (body : Bytes) :
    (AuthChainCodec.decodePacket crypto s
      (Server.encodeChain crypto ⟨s.key, s.userKey⟩ draw body)).map Prod.fst =
      some (if body = [] ∧ Server.udpRandLen (crypto.hmacMd5 s.key draw.footer.toList).toList = 0
        then .error ⟨.invalidData, "ShadowsocksR auth_chain UDP packet is too short"⟩
      else .ok body) := by
  have hnil := @padded_nil_iff _ crypto s.userKey (crypto.hmacMd5 s.key draw.footer.toList)
    draw.padding body
  obtain ⟨hrand,hbody⟩ := @padded_decoded _ crypto s.userKey
    (crypto.hmacMd5 s.key draw.footer.toList) draw.padding body
  have hpacket : Server.encodeChain crypto ⟨s.key, s.userKey⟩ draw body =
      padded crypto s.userKey (crypto.hmacMd5 s.key draw.footer.toList) draw.padding body ++
        draw.footer.toList ++ [(crypto.hmacMd5 s.userKey
          (padded crypto s.userKey (crypto.hmacMd5 s.key draw.footer.toList) draw.padding body ++
            draw.footer.toList))[0]] := rfl
  rw [hpacket]
  generalize padded crypto s.userKey (crypto.hmacMd5 s.key draw.footer.toList) draw.padding body =
    front at hnil hrand hbody
  by_cases hbare : front = []
  · rw [if_pos (hnil.mp hbare), hbare, AuthChainCodec.decodePacket, if_pos (by simp)]
    rfl
  · rw [if_neg (mt hnil.mpr hbare), AuthChainCodec.decodePacket_append s _ hbare Vector.length_toList]
    simp only [not_true_eq_false, if_false, ne_eq]
    have hsame : (AuthChainCodec.udpRandLen s (crypto.hmacMd5 s.key draw.footer.toList).toList
        false).1 = Server.udpRandLen (crypto.hmacMd5 s.key draw.footer.toList).toList := rfl
    rw [hsame, if_pos hrand, hbody]

theorem chain_rejects (s : Ssr.AuthChainCodec ρ) (packet : Bytes) :
    ∃ r, (AuthChainCodec.decodePacket crypto s packet).map Prod.fst = some r ∧
      ((¬ ∃ data, packet = data ++ [(crypto.hmacMd5 s.userKey data)[0]]) → ∃ e, r = .error e) := by
  by_cases hshort : packet.length < 9
  · refine ⟨_,congrArg (Option.map Prod.fst) (if_pos hshort),fun _ => ⟨_,rfl⟩⟩
  · obtain ⟨front,last,rfl,hlast⟩ := @exists_last packet 8 (by omega)
    obtain ⟨footer,tag,rfl,htag⟩ := @exists_last last 1 (by omega)
    obtain ⟨byte,rfl⟩ := List.length_eq_one_iff.mp htag
    rw [List.length_append] at hlast hshort
    have hfront : front ≠ [] := by
      rintro rfl
      simp at hshort hlast
      omega
    have hfooter : footer.length = 7 := by simpa using hlast
    rw [← List.append_assoc]
    refine ⟨_,AuthChainCodec.decodePacket_append s byte hfront hfooter,fun hbad => ?_⟩
    have hne : (crypto.hmacMd5 s.userKey (front ++ footer))[0] ≠ byte := by
      intro heq
      exact hbad ⟨front ++ footer,by rw [heq]⟩
    exact ⟨_,if_pos hne⟩

theorem inverse_plain {protocol : SsrProtocol} {server : Server}
    (hrequest : ∀ packet, server.decodeRequest crypto protocol packet = some (packet, none))
    (hresponse : ∀ draw body, server.encodeResponse crypto protocol draw body = body)
    (hchain : protocol.isAuthChain = false) (htagged : ∀ packet, server.Tagged crypto protocol packet) :
    Inverse crypto protocol .plain server := by
  refine ⟨fun draw body => ?_,fun draw body => ?_,fun packet => ?_⟩
  · rw [hrequest, if_neg (Bare.neg hchain)]
    rfl
  · rw [hresponse, if_neg (Bare.neg hchain)]
    rfl
  · exact ⟨_,rfl,fun hbad => absurd (htagged packet) hbad⟩

theorem inverse_aes {protocol : SsrProtocol} (s : AuthAes128Codec)
    (hrequest : ∀ server packet,
      Server.decodeRequest crypto server protocol packet = server.decodeAes crypto s.hmacKind packet)
    (hresponse : ∀ server draw body,
      Server.encodeResponse crypto server protocol draw body = server.encodeAes crypto s.hmacKind body)
    (hchain : protocol.isAuthChain = false)
    (htagged : ∀ server packet, Server.Tagged crypto server protocol packet ↔
      ∃ data, packet = data ++ (digest crypto s.hmacKind server.key data).take 4) :
    Inverse crypto protocol (.authAes128 s) ⟨s.key, s.user.userKey⟩ := by
  refine ⟨fun draw body => ?_,fun draw body => ?_,fun packet => ?_⟩
  · rw [hrequest, if_neg (Bare.neg hchain)]
    exact aes_request s body
  · rw [hresponse, if_neg (Bare.neg hchain), SsrProtocolCodec.decodePacket, aes_response]
    rfl
  · obtain ⟨r,hr,hrejects⟩ := @aes_rejects _ crypto s packet
    rw [SsrProtocolCodec.decodePacket, hr, htagged]
    exact ⟨r,rfl,hrejects⟩

theorem inverse_chain {protocol : SsrProtocol} (s : Ssr.AuthChainCodec ρ)
    (hrequest : ∀ server packet,
      Server.decodeRequest crypto server protocol packet = server.decodeChain crypto packet)
    (hresponse : ∀ server draw body,
      Server.encodeResponse crypto server protocol draw body = server.encodeChain crypto draw body)
    (hchain : protocol.isAuthChain = true)
    (htagged : ∀ server packet, Server.Tagged crypto server protocol packet ↔
      ∃ data, packet = data ++ [(crypto.hmacMd5 server.userKey data)[0]]) :
    Inverse crypto protocol (.authChain s) ⟨s.key, s.userKey⟩ := by
  have hbare (footer body : Bytes) : Bare crypto protocol s.key footer body ↔
      body = [] ∧ Server.udpRandLen (crypto.hmacMd5 s.key footer).toList = 0 := by
    rw [Bare, hchain]
    exact and_iff_right rfl
  have hstate (packet : Bytes) : (SsrProtocolCodec.decodePacket crypto packet (.authChain s)).map
      Prod.fst = (AuthChainCodec.decodePacket crypto s packet).map Prod.fst := by
    rw [SsrProtocolCodec.decodePacket, Option.map_map]
    rfl
  refine ⟨fun draw body => ?_,fun draw body => ?_,fun packet => ?_⟩
  · rw [hrequest]
    simp only [hbare]
    exact chain_request s draw body
  · rw [hresponse, hstate]
    simp only [hbare]
    exact chain_response s draw body
  · obtain ⟨r,hr,hrejects⟩ := @chain_rejects _ crypto s packet
    rw [hstate, hr, htagged]
    exact ⟨r,rfl,hrejects⟩

end

/-- Whatever the parameter of the user is and whatever is drawn, the wrappers of every protocol
are inverse to those of a server with the same keys. -/
theorem ssr_udp_wrappers_inverse (crypto : PacketCrypto ρ) (draw : CodecDraw) (protocol : SsrProtocol)
    (key : Bytes) (protocolParam : List Char) :
    Inverse crypto protocol (ssrUdpCodec crypto draw protocol key protocolParam)
      ⟨key, (ssrUdpCodec crypto draw protocol key protocolParam).userKey⟩ := by
  cases protocol with
  | verifySimple | verifySha1 | authSimple | authSha1 | authSha1V2 | authSha1V4 =>
    exact inverse_plain (fun _ => rfl) (fun _ _ => rfl) rfl (fun _ => trivial)
  | authAes128Md5 | authAes128Sha1 =>
    exact inverse_aes _ (fun _ _ => rfl) (fun _ _ _ => rfl) rfl (fun _ _ => Iff.rfl)
  | authChainA | authChainB | authChainC | authChainD | authChainE | authChainF =>
    exact inverse_chain _ (fun _ _ => rfl) (fun _ _ _ => rfl) rfl (fun _ _ => Iff.rfl)

def plainPacketCrypto : PacketCrypto Unit :=
  { AuthChainCodec.plainCrypto with
    hmacSha1 := fun _ _ => Vector.replicate 20 0
    md5 := fun _ => Vector.replicate 16 0
    sha1 := fun _ => Vector.replicate 20 0 }

/-- An empty body that is sent without padding is not taken. -/
theorem ssr_udp_empty_body_refused :
    ((ssrUdpCodec plainPacketCrypto ⟨Vector.replicate 4 0, 0, 0⟩ .authChainA [] []).decodePacket
        plainPacketCrypto
        (Server.encodeResponse plainPacketCrypto ⟨[], []⟩ .authChainA
          ⟨Vector.replicate 7 0, zeroDraw⟩ [])).map Prod.fst ≠ some (.ok []) := by
  decide +kernel

end AtlasKernel.Shadowsocks.Ssr.Udp
