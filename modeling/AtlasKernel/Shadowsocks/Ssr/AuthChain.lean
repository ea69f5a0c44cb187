import AtlasKernel.Lib.Keystream
import AtlasKernel.Shadowsocks.Ssr.AuthChainSizes
import AtlasKernel.Shadowsocks.Ssr.AuthSha1V4

/-! auth_chain_a to auth_chain_f over TCP. HMAC-MD5 and the encrypted block of the header
are any functions, RC4 is any generator of a key stream.
Source: `shadowsocks/ssr/protocol/auth_chain.rs`. -/
namespace AtlasKernel.Shadowsocks.Ssr
open AtlasKernel.Lib FrameDecoder
variable {ρ : Type*}

structure ChainCrypto (ρ : Type*) where
  hmacMd5 : Bytes → Bytes → Vector UInt8 16
  rc4Next : ρ → UInt8 × ρ
  initRc4 : Bytes → Vector UInt8 16 → ρ
  encryptedBlock : Bytes → UInt32 → Vector UInt8 16

def ChainCrypto.rc4 (crypto : ChainCrypto ρ) : Keystream ρ UInt8 := .xor crypto.rc4Next

/-- The hashes and the ciphers are there from the header on. -/
structure AuthChainCodec (ρ : Type*) where
  key : Bytes
  iv : Bytes
  userKey : Bytes
  userId : Vector UInt8 4
  connectionId : UInt32
  profile : PaddingProfile
  sentHeader : Bool
  packId : UInt32
  recvId : UInt32
  lastClientHash : Option (Vector UInt8 16)
  lastServerHash : Option (Vector UInt8 16)
  encRc4 : Option ρ
  decRc4 : Option ρ
  randomClient : XorShift128Plus
  randomServer : XorShift128Plus
  rawRecv : Bool

def hashBytes (hash : Option (Vector UInt8 16)) : Bytes := (hash.map Vector.toList).getD []

/-- `u16::from_le_bytes([hash[14], hash[15]])` -/
def hashLen (hash : Option (Vector UInt8 16)) : Nat := le16At (hashBytes hash) 14

theorem hashLen_lt (hash : Option (Vector UInt8 16)) : hashLen hash < 65536 := le16At_lt _ _

namespace AuthChainCodec
variable (crypto : ChainCrypto ρ)

def new (key iv userKey : Bytes) (userId : Vector UInt8 4) (id : UInt32)
    (variant : AuthChainVariant) (interval : Nat) (timestamp : UInt32) : AuthChainCodec ρ where
  key := key
  iv := iv
  userKey := userKey
  userId := userId
  connectionId := id &&& 0x00ffffff
  profile := ⟨variant, (dataSizeLists variant key interval timestamp).1,
    (dataSizeLists variant key interval timestamp).2⟩
  sentHeader := false
  packId := 1
  recvId := 1
  lastClientHash := none
  lastServerHash := none
  encRc4 := none
  decRc4 := none
  randomClient := .default
  randomServer := .default
  rawRecv := false

/-- The random bytes around the payload. -/
def putMixedRandAndData (s : AuthChainCodec ρ) (draw : Draw) (data : Bytes) :
    Bytes × XorShift128Plus :=
  let (randLen, random) :=
    s.profile.randLen data.length (hashBytes s.lastClientHash) s.randomClient
  if data = [] then (pushRandomBytes draw randLen, random)
  else if 0 < randLen then
    let (start, random) := randStartPos randLen random
    (pushRandomBytes draw start ++ data ++
      pushRandomBytes { draw with fill := fun i => draw.fill (start + i) } (randLen - start), random)
  else (data, random)

def packData (s : AuthChainCodec ρ) (draw : Draw) (data : Bytes) : Bytes × AuthChainCodec ρ :=
  let encrypted := match s.encRc4 with
    | some enc => crypto.rc4.output enc data
    | none => data
  let encodedLen := encrypted.length % 65536 ^^^ hashLen s.lastClientHash
  let (mixed, random) := s.putMixedRandAndData draw encrypted
  let output := le16 encodedLen ++ mixed
  let hash := crypto.hmacMd5 (s.userKey ++ le32 s.packId.toNat) output
  (output ++ hash.toList.take 2,
    { s with
      encRc4 := s.encRc4.map fun enc => crypto.rc4.after enc data
      packId := s.packId + 1
      lastClientHash := some hash
      randomClient := random })

/-- `pack_auth_data`, up to the data frame it ends with. -/
def packAuthHeader (s : AuthChainCodec ρ) (draw : Draw) : Bytes × AuthChainCodec ρ :=
  let random := pushRandomBytes draw 4
  let clientHash := crypto.hmacMd5 (s.iv ++ s.key) random
  let rc4 := crypto.initRc4 s.userKey clientHash
  let uid := List.zipWith (· ^^^ ·) s.userId.toList (slice clientHash.toList 8 12)
  let connectionId := s.connectionId + 1
  let front := random ++ clientHash.toList.take 8 ++ uid ++
    (crypto.encryptedBlock s.userKey connectionId).toList
  let serverHash := crypto.hmacMd5 s.userKey (front.drop 12)
  (front ++ serverHash.toList.take 4,
    { s with
      connectionId := connectionId
      lastClientHash := some clientHash
      lastServerHash := some serverHash
      encRc4 := some rc4
      decRc4 := some rc4 })

/-- What `encode` hands to one `pack_data`. -/
abbrev Piece := { data : Bytes // data.length ≤ 2800 }

def pieces (d : Draws) (payload : Bytes) : List (Draw × Piece) :=
  (chunks 2800 payload).attach.mapIdx fun i chunk =>
    (d.data i, ⟨chunk.1, (chunks_length chunk.2).2⟩)

theorem authLen_piece (draw : Draw) (payload : Bytes) :
    (payload.take (getAuthSha1V4DataLen draw payload)).length ≤ 2800 := by
  have hhead := EarlyAuthCodec.getSsrHeadSize_bounds payload
  rw [List.length_take, getAuthSha1V4DataLen]
  omega

/-- The frames of pieces, the state handed on. -/
def packPieces (s : AuthChainCodec ρ) (items : List (Draw × Piece)) : Bytes × AuthChainCodec ρ :=
  packAll (fun (t : AuthChainCodec ρ) (item : Draw × Piece) =>
    t.packData crypto item.1 item.2.1) s items

def encode (s : AuthChainCodec ρ) (d : Draws) (payload : Bytes) : Bytes × AuthChainCodec ρ :=
  if s.sentHeader then s.packPieces crypto (pieces d payload)
  else
    let dataLen := getAuthSha1V4DataLen d.head payload
    let (header, s) := s.packAuthHeader crypto d.head
    let (frames, s) := s.packPieces crypto
      ((d.auth, ⟨payload.take dataLen, authLen_piece d.head payload⟩) ::
        pieces d (payload.drop dataLen))
    (header ++ frames, { s with sentHeader := true })

/-! ## The decoder -/

/-- Both sides know the length of the data by their last hash. -/
def dataLen (s : AuthChainCodec ρ) (front : Bytes) : Nat :=
  le16At front 0 ^^^ hashLen s.lastServerHash

def head (s : AuthChainCodec ρ) (front : Bytes) : Except IoError Nat × AuthChainCodec ρ :=
  let dataLen := s.dataLen front
  let (randLen, random) :=
    s.profile.randLen dataLen (hashBytes s.lastServerHash) s.randomServer
  let s := { s with randomServer := random }
  let length := dataLen + randLen
  if 4096 ≤ length then
    (.error ⟨.invalidData, "ShadowsocksR auth_chain response length is invalid"⟩,
      { s with rawRecv := true })
  else (.ok (4 + length), s)

/-- Position of the data in the frame, and the generator after it is drawn. -/
def startPos (s : AuthChainCodec ρ) (dataLen randLen : Nat) : Nat × XorShift128Plus :=
  if 0 < dataLen ∧ 0 < randLen then
    let (start, random) := randStartPos randLen s.randomServer
    (2 + start, random)
  else (2, s.randomServer)

/-- The first frame has two bytes in front of its data. -/
def stripped (recvId : UInt32) (data : Bytes) : Bytes :=
  if recvId = 1 ∧ 2 ≤ data.length then data.drop 2 else data

def body (s : AuthChainCodec ρ) (frame : Bytes) :
    Except (IoError × Leftover) Bytes × AuthChainCodec ρ :=
  let length := frame.length - 4
  let dataLen := s.dataLen frame
  let randLen := length - dataLen
  let serverHash := crypto.hmacMd5 (s.userKey ++ le32 s.recvId.toNat) (frame.take (length + 2))
  if serverHash.toList.take 2 ≠ slice frame (length + 2) (length + 4) then
    (.error (⟨.invalidData, "ShadowsocksR auth_chain response checksum mismatch"⟩, .nothing),
      { s with rawRecv := true })
  else
    let (pos, random) := s.startPos dataLen randLen
    let s := { s with lastServerHash := some serverHash, randomServer := random }
    if length + 2 < pos + dataLen then
      (.error (⟨.invalidData, "ShadowsocksR auth_chain response padding is invalid"⟩,
        .everything), s)
    else
      let data := slice frame pos (pos + dataLen)
      let data' := match s.decRc4 with
        | some dec => crypto.rc4.output dec data
        | none => data
      (.ok (stripped s.recvId data'),
        { s with
          decRc4 := s.decRc4.map fun dec => crypto.rc4.after dec data
          recvId := s.recvId + 1 })

variable {crypto : ChainCrypto ρ} {s s' : AuthChainCodec ρ}

theorem head_ok {front : Bytes} {n : Nat} (h : s.head front = (.ok n, s')) :
    s' = { s with randomServer := (s.profile.randLen (s.dataLen front)
        (hashBytes s.lastServerHash) s.randomServer).2 } ∧
      n = 4 + (s.dataLen front + (s.profile.randLen (s.dataLen front)
        (hashBytes s.lastServerHash) s.randomServer).1) ∧ n < 4100 := by
  simp only [head] at h
  by_cases hlen : 4096 ≤ s.dataLen front + (s.profile.randLen (s.dataLen front)
      (hashBytes s.lastServerHash) s.randomServer).1
  · rw [if_pos hlen] at h
    cases h
  · rw [if_neg hlen] at h
    cases h
    exact ⟨rfl, rfl, by omega⟩

theorem head_again {front : Bytes} {n : Nat} (h : s.head front = (.ok n, s')) :
    s'.head front = (.ok n, s') := by
  obtain ⟨hs,hn,hlt⟩ := head_ok h
  have hagain := s.profile.randLen_again (s.dataLen front) (hashBytes s.lastServerHash)
    s.randomServer
  have hdata : s'.dataLen front = s.dataLen front := by rw [hs, dataLen, dataLen]
  have hrand : s'.profile.randLen (s.dataLen front) (hashBytes s'.lastServerHash)
      s'.randomServer = s.profile.randLen (s.dataLen front) (hashBytes s.lastServerHash)
        s.randomServer := by rw [hs]; exact hagain
  simp only [head, hdata, hrand]
  rw [if_neg (by omega), ← hn, hs]

theorem startPos_le (s : AuthChainCodec ρ) (dataLen randLen : Nat) :
    2 ≤ (s.startPos dataLen randLen).1 ∧ (s.startPos dataLen randLen).1 ≤ 2 + randLen := by
  have hle := randStartPos_le randLen s.randomServer
  rw [startPos]
  split
  · exact ⟨Nat.le_add_right .., Nat.add_le_add_left hle 2⟩
  · omega

theorem body_ok {frame out : Bytes} (h : s.body crypto frame = (.ok out, s')) :
    (crypto.hmacMd5 (s.userKey ++ le32 s.recvId.toNat)
        (frame.take (frame.length - 4 + 2))).toList.take 2 =
      slice frame (frame.length - 4 + 2) (frame.length - 4 + 4) ∧
    out = stripped s.recvId
      (match s.decRc4 with
        | some dec => crypto.rc4.output dec (slice frame
          (s.startPos (s.dataLen frame) (frame.length - 4 - s.dataLen frame)).1
          ((s.startPos (s.dataLen frame) (frame.length - 4 - s.dataLen frame)).1 +
            s.dataLen frame))
        | none => slice frame
          (s.startPos (s.dataLen frame) (frame.length - 4 - s.dataLen frame)).1
          ((s.startPos (s.dataLen frame) (frame.length - 4 - s.dataLen frame)).1 +
            s.dataLen frame)) ∧
    s' = { s with
      lastServerHash := some (crypto.hmacMd5 (s.userKey ++ le32 s.recvId.toNat)
        (frame.take (frame.length - 4 + 2)))
      randomServer := (s.startPos (s.dataLen frame) (frame.length - 4 - s.dataLen frame)).2
      decRc4 := s.decRc4.map fun dec => crypto.rc4.after dec (slice frame
        (s.startPos (s.dataLen frame) (frame.length - 4 - s.dataLen frame)).1
        ((s.startPos (s.dataLen frame) (frame.length - 4 - s.dataLen frame)).1 +
          s.dataLen frame))
      recvId := s.recvId + 1 } := by
  simp only [body] at h
  split at h
  case isTrue => cases h
  case isFalse htag =>
    split at h
    case isTrue => cases h
    case isFalse =>
      cases h
      exact ⟨not_ne_iff.mp htag, rfl, rfl⟩

def layout (crypto : ChainCrypto ρ) : Layout (AuthChainCodec ρ) UInt8 UInt8 IoError where
  guard _ := 4
  ready s := s.lastServerHash.isSome && s.decRc4.isSome
  head := head
  body := body crypto
  head_pos h := by
    rw [(head_ok h).2.1]
    omega
  head_again := by
    intro s front n s' hready h
    refine ⟨rfl, ?_, head_again h⟩
    rw [(head_ok h).1]
    exact hready

def decoder (crypto : ChainCrypto ρ) : SsrDecoder (AuthChainCodec ρ) :=
  .ofLayout (layout crypto) rawRecv (fun h => by rw [(head_ok h).1])
    (fun h => by rw [(body_ok h).2.2])

theorem inspect_nil (s : AuthChainCodec ρ) : (decoder crypto).frames.inspect s [] = .wait s :=
  (SsrDecoder.ofLayout_inspect s []).trans ((layout crypto).turn_nil s)

/-! ## Checks -/

theorem dataLen_take (s : AuthChainCodec ρ) (buf : Bytes) {n : Nat} (h : 2 ≤ n) :
    s.dataLen (buf.take n) = s.dataLen buf := by
  rw [dataLen, dataLen, le16At_take (by omega)]

/-- The state but for the generator, which the head of every frame sets anew. -/
def settled (s : AuthChainCodec ρ) : AuthChainCodec ρ := { s with randomServer := .default }

def decrypted (crypto : ChainCrypto ρ) (s : AuthChainCodec ρ) (data : Bytes) : Bytes :=
  match s.decRc4 with
  | some dec => crypto.rc4.output dec data
  | none => data

/-- Length in range and right, tag right under the next id, data within the frame; and the
next frame goes by this one's hash. -/
structure Checked (crypto : ChainCrypto ρ) (s : AuthChainCodec ρ) (frame out : Bytes)
    (s' : AuthChainCodec ρ) : Prop where
  length : 4 + s.dataLen frame ≤ frame.length ∧ frame.length < 4100
  tag : (crypto.hmacMd5 (s.userKey ++ le32 s.recvId.toNat)
      (frame.take (frame.length - 4 + 2))).toList.take 2 =
    slice frame (frame.length - 4 + 2) (frame.length - 4 + 4)
  data : ∃ pos, 2 ≤ pos ∧ pos + s.dataLen frame ≤ frame.length - 4 + 2 ∧
    out = stripped s.recvId (s.decrypted crypto (slice frame pos (pos + s.dataLen frame)))
  next : s'.userKey = s.userKey ∧ s'.recvId = s.recvId + 1 ∧
    s'.lastServerHash = some (crypto.hmacMd5 (s.userKey ++ le32 s.recvId.toNat)
      (frame.take (frame.length - 4 + 2)))

theorem checks : (decoder crypto).frames.Checks settled (Checked crypto) := by
  refine Layout.checks (fun h => by rw [(head_ok h).1]; rfl) ?_
  intro s buf n s' out s'' hguard hle hh hb
  obtain ⟨hs',hn,hmax⟩ := head_ok hh
  obtain ⟨htag,hout,hs''⟩ := body_ok hb
  have hlen : (buf.take n).length = n := List.length_take_of_le hle
  have hdata : s.dataLen (buf.take 4) = s.dataLen (buf.take n) := by
    rw [dataLen_take _ _ (by decide), dataLen_take _ _ (by omega)]
  have hdata' : s'.dataLen (buf.take n) = s.dataLen (buf.take n) := by
    rw [hs']
    rfl
  change n = 4 + (s.dataLen (buf.take 4) + _) at hn
  rw [hdata] at hn
  have hstart := s'.startPos_le (s.dataLen (buf.take n)) (n - 4 - s.dataLen (buf.take n))
  rw [hdata', hlen] at hout
  refine ⟨⟨?_, by rwa [hlen]⟩, ?_, ⟨_, hstart.1, ?_, ?_⟩, ?_⟩
  · change 4 + s.dataLen (buf.take n) ≤ _
    omega
  · rw [hs'] at htag
    exact htag
  · change _ + s.dataLen (buf.take n) ≤ _
    omega
  · rw [hout, hs']
    rfl
  · rw [hs'', hs']
    exact ⟨rfl, rfl, rfl⟩

/-! ## One frame -/

/-- The receiver of what `s` packs: same key, profile and generator, its last hash, cipher
and next id those of the packer. -/
def mirror (s receiver : AuthChainCodec ρ) : AuthChainCodec ρ :=
  { receiver with
    userKey := s.userKey
    profile := s.profile
    lastServerHash := s.lastClientHash
    decRc4 := s.encRc4
    recvId := s.packId
    randomServer := s.randomClient
    rawRecv := false }

/-- The receiver once the head of the frame has set its generator. -/
def started (s receiver : AuthChainCodec ρ) (random : XorShift128Plus) : AuthChainCodec ρ :=
  { mirror s receiver with randomServer := random }

@[simp] theorem started_userKey (s receiver : AuthChainCodec ρ) (random : XorShift128Plus) :
    (started s receiver random).userKey = s.userKey := rfl
@[simp] theorem started_recvId (s receiver : AuthChainCodec ρ) (random : XorShift128Plus) :
    (started s receiver random).recvId = s.packId := rfl
@[simp] theorem started_decRc4 (s receiver : AuthChainCodec ρ) (random : XorShift128Plus) :
    (started s receiver random).decRc4 = s.encRc4 := rfl
@[simp] theorem started_randomServer (s receiver : AuthChainCodec ρ) (random : XorShift128Plus) :
    (started s receiver random).randomServer = random := rfl
@[simp] theorem started_dataLen (s receiver : AuthChainCodec ρ) (random : XorShift128Plus)
    (front : Bytes) : (started s receiver random).dataLen front = (mirror s receiver).dataLen front :=
  rfl

/-- The padding goes around the data where the receiver looks for it. -/
theorem putMixed_shape (s receiver : AuthChainCodec ρ) (draw : Draw) (data : Bytes)
    (h : receiver.randomServer = (s.profile.randLen data.length (hashBytes s.lastClientHash)
      s.randomClient).2) :
    ∃ before behind : Bytes,
      (s.putMixedRandAndData draw data).1 = before ++ (data ++ behind) ∧
      before.length + behind.length = (s.profile.randLen data.length
        (hashBytes s.lastClientHash) s.randomClient).1 ∧
      receiver.startPos data.length (s.profile.randLen data.length
        (hashBytes s.lastClientHash) s.randomClient).1 =
        (2 + before.length, (s.putMixedRandAndData draw data).2) := by
  rcases hr : s.profile.randLen data.length (hashBytes s.lastClientHash) s.randomClient with ⟨n,random⟩
  rw [hr] at h
  simp only [putMixedRandAndData, startPos, hr, h]
  by_cases hd : data = []
  · subst hd
    exact ⟨[], pushRandomBytes draw n, rfl, by simp, rfl⟩
  · have hpos := List.length_pos_iff.mpr hd
    by_cases hn : 0 < n
    · rw [if_neg hd, if_pos hn, if_pos ⟨hpos, hn⟩]
      have hle := randStartPos_le n random
      refine ⟨pushRandomBytes draw (randStartPos n random).1, _, List.append_assoc .., ?_, ?_⟩
      · rw [pushRandomBytes_length, pushRandomBytes_length]
        omega
      · rw [pushRandomBytes_length]
    · rw [if_neg hd, if_neg hn, if_neg fun h => hn h.2]
      exact ⟨[], [], (List.append_nil data).symm, by simp only [List.length_nil]; omega, rfl⟩

/-- The length that was masked with the last hash is read back. -/
theorem dataLen_packed (s receiver : AuthChainCodec ρ) {len : Nat} (h : len ≤ 2800) (bs : Bytes) :
    (mirror s receiver).dataLen (le16 (len % 65536 ^^^ hashLen s.lastClientHash) ++ bs) = len := by
  have hlen : len % 65536 = len := Nat.mod_eq_of_lt (by omega)
  have hlt : len ^^^ hashLen s.lastClientHash < 65536 :=
    @Nat.xor_lt_two_pow len (hashLen s.lastClientHash) 16 (by omega) (hashLen_lt _)
  rw [dataLen, le16At_le16, hlen, Nat.mod_eq_of_lt hlt]
  change len ^^^ hashLen s.lastClientHash ^^^ hashLen s.lastClientHash = len
  rw [Nat.xor_assoc, Nat.xor_self, Nat.xor_zero]

/-- What `packData` makes of a piece, in the terms of its receiver. -/
structure Packed (crypto : ChainCrypto ρ) (s receiver : AuthChainCodec ρ) (draw : Draw)
    (data : Bytes) (enc : ρ) (randLen : Nat) (before behind : Bytes) : Prop where
  output : (s.packData crypto draw data).1 =
    le16 (data.length % 65536 ^^^ hashLen s.lastClientHash) ++
      (before ++ (crypto.rc4.output enc data ++ behind)) ++
      (crypto.hmacMd5 (s.userKey ++ le32 s.packId.toNat)
        (le16 (data.length % 65536 ^^^ hashLen s.lastClientHash) ++
          (before ++ (crypto.rc4.output enc data ++ behind)))).toList.take 2
  next : (s.packData crypto draw data).2 =
    { s with
      encRc4 := some (crypto.rc4.after enc data)
      packId := s.packId + 1
      lastClientHash := some (crypto.hmacMd5 (s.userKey ++ le32 s.packId.toNat)
        (le16 (data.length % 65536 ^^^ hashLen s.lastClientHash) ++
          (before ++ (crypto.rc4.output enc data ++ behind))))
      randomClient := (receiver.startPos data.length randLen).2 }
  drawn : s.profile.randLen data.length (hashBytes s.lastClientHash) s.randomClient =
    (randLen, receiver.randomServer)
  padding : before.length + behind.length = randLen
  start : (receiver.startPos data.length randLen).1 = 2 + before.length

theorem packData_packed (crypto : ChainCrypto ρ) (s receiver : AuthChainCodec ρ) {enc : ρ} (henc : s.encRc4 = some enc)
    (draw : Draw) (data : Bytes) :
    ∃ random randLen before behind,
      Packed crypto s (started s receiver random) draw data enc randLen before behind := by
  have hlen : (crypto.rc4.output enc data).length = data.length := output_length ..
  obtain ⟨before,behind,hmixed,hpad,hstart⟩ := putMixed_shape s
    (started s receiver (s.profile.randLen data.length (hashBytes s.lastClientHash)
      s.randomClient).2) draw (crypto.rc4.output enc data) (by rw [hlen, started_randomServer])
  rw [hlen] at hpad hstart
  refine ⟨(s.profile.randLen data.length (hashBytes s.lastClientHash) s.randomClient).2,
    (s.profile.randLen data.length (hashBytes s.lastClientHash) s.randomClient).1, before, behind,
    ?_, ?_, rfl, hpad, congrArg Prod.fst hstart⟩
  · simp only [packData, henc, hmixed, hlen]
  · simp only [packData, henc, hmixed, hlen, Option.map_some, hstart]

/-- The head of a packed frame gives its length, and starts the receiver's generator. -/
theorem packData_head {s receiver : AuthChainCodec ρ} {draw : Draw} {data : Bytes} {enc : ρ}
    {randLen : Nat} {before behind : Bytes} {random : XorShift128Plus}
    (hp : Packed crypto s (started s receiver random) draw data enc randLen before behind) (hlen : data.length ≤ 2800) (rest : Bytes) :
    (mirror s receiver).head (((s.packData crypto draw data).1 ++ rest).take 4) =
      (.ok (4 + (data.length + randLen)),
        started s receiver random) := by
  have hdata : (mirror s receiver).dataLen (((s.packData crypto draw data).1 ++ rest).take 4) =
      data.length := by
    rw [dataLen_take _ _ (by decide), hp.output, List.append_assoc, List.append_assoc]
    exact dataLen_packed s receiver hlen _
  have hdraw : (mirror s receiver).profile.randLen data.length
      (hashBytes (mirror s receiver).lastServerHash) (mirror s receiver).randomServer =
      (randLen, random) := hp.drawn
  have hbound := s.profile.randLen_bound data.length (hashBytes s.lastClientHash) s.randomClient
    hlen
  rw [hp.drawn] at hbound
  simp only [head, hdata, hdraw]
  rw [if_neg (Nat.not_le.mpr hbound)]
  rfl

theorem packData_length {s receiver : AuthChainCodec ρ} {draw : Draw} {data : Bytes} {enc : ρ}
    {randLen : Nat} {before behind : Bytes}
    (hp : Packed crypto s receiver draw data enc randLen before behind) :
    (s.packData crypto draw data).1.length = 4 + (data.length + randLen) := by
  have hpad := hp.padding
  rw [hp.output]
  simp only [List.length_append, le16_length, List.length_take, Vector.length_toList,
    output_length]
  omega

/-- The body of a packed frame is the piece, and takes the receiver on with the packer. -/
theorem packData_body {s receiver : AuthChainCodec ρ} {draw : Draw} {data : Bytes} {enc : ρ}
    {randLen : Nat} {before behind : Bytes} {random : XorShift128Plus}
    (henc : s.encRc4 = some enc)
    (hp : Packed crypto s (started s receiver random) draw data enc randLen before behind) (hlen : data.length ≤ 2800) :
    (started s receiver random).body crypto (s.packData crypto draw data).1 =
      (.ok (stripped s.packId data), mirror (s.packData crypto draw data).2 receiver) := by
  have hsize := packData_length hp
  have hpad := hp.padding
  have hdata : (mirror s receiver).dataLen (s.packData crypto draw data).1 = data.length := by
    rw [hp.output, List.append_assoc]
    exact dataLen_packed s receiver hlen _
  have hfront : (le16 (data.length % 65536 ^^^ hashLen s.lastClientHash) ++
      (before ++ (crypto.rc4.output enc data ++ behind))).length = data.length + randLen + 2 := by
    simp only [List.length_append, le16_length, output_length]
    omega
  have htake : (s.packData crypto draw data).1.take (data.length + randLen + 2) =
      le16 (data.length % 65536 ^^^ hashLen s.lastClientHash) ++
        (before ++ (crypto.rc4.output enc data ++ behind)) := by
    rw [hp.output]
    exact List.take_left' hfront
  have htag : slice (s.packData crypto draw data).1 (data.length + randLen + 2)
      (data.length + randLen + 4) = (crypto.hmacMd5 (s.userKey ++ le32 s.packId.toNat)
        (le16 (data.length % 65536 ^^^ hashLen s.lastClientHash) ++
          (before ++ (crypto.rc4.output enc data ++ behind)))).toList.take 2 := by
    rw [slice, List.take_of_length_le (by omega), hp.output]
    exact List.drop_left' hfront
  have hslice : slice (s.packData crypto draw data).1 (2 + before.length)
      (2 + before.length + data.length) = crypto.rc4.output enc data := by
    have hmid := slice_middle (le16 (data.length % 65536 ^^^ hashLen s.lastClientHash) ++ before)
      (crypto.rc4.output enc data) (behind ++ (crypto.hmacMd5 (s.userKey ++ le32 s.packId.toNat)
        (le16 (data.length % 65536 ^^^ hashLen s.lastClientHash) ++
          (before ++ (crypto.rc4.output enc data ++ behind)))).toList.take 2)
    rw [List.length_append, le16_length, output_length] at hmid
    rw [hp.output]
    simp only [List.append_assoc] at hmid ⊢
    exact hmid
  have hrand : (s.packData crypto draw data).1.length - 4 - data.length = randLen := by omega
  have hcut : (s.packData crypto draw data).1.length - 4 = data.length + randLen := by omega
  have hfit : ¬ data.length + randLen + 2 < 2 + before.length + data.length := by omega
  have hplain := xor_output_output crypto.rc4Next enc data
  have hafter := xor_after_output crypto.rc4Next enc data
  rw [hp.next]
  simp only [body, started_dataLen, hdata, hcut, Nat.add_sub_cancel_left, htake, htag, hp.start,
    hslice, started_userKey, started_recvId, started_decRc4, henc, if_neg hfit, ne_eq,
    not_true_eq_false, if_false, Option.map_some]
  rw [ChainCrypto.rc4, hplain, hafter]
  rfl

/-- A packed frame passes the decoder, which is then again the mirror of the packer. A
frame without anything in it may stay in the buffer. -/
theorem packData_inspect (crypto : ChainCrypto ρ) (s receiver : AuthChainCodec ρ) {enc : ρ} (henc : s.encRc4 = some enc)
    {hash : Vector UInt8 16} (hhash : s.lastClientHash = some hash) (draw : Draw) (data : Piece)
    (rest : Bytes) :
    (decoder crypto).frames.inspect (mirror s receiver) ((s.packData crypto draw data.1).1 ++ rest) =
        .frame (mirror (s.packData crypto draw data.1).2 receiver)
          (s.packData crypto draw data.1).1.length (stripped s.packId data.1) ∨
    (rest = [] ∧ stripped s.packId data.1 = [] ∧
      (decoder crypto).frames.inspect (mirror s receiver) (s.packData crypto draw data.1).1 =
        .wait (mirror s receiver)) := by
  obtain ⟨random,randLen,before,behind,hp⟩ := packData_packed crypto s receiver henc draw data.1
  have hsize := packData_length hp
  by_cases hguard : 4 < ((s.packData crypto draw data.1).1 ++ rest).length
  · refine .inl ?_
    rw [hsize]
    have htake : ((s.packData crypto draw data.1).1 ++ rest).take (4 + (data.1.length + randLen)) =
        (s.packData crypto draw data.1).1 := List.take_left' hsize
    have hbody := packData_body henc hp data.2
    rw [← htake] at hbody
    refine Layout.turn_body (l := layout crypto) ⟨hguard, ?_⟩ (packData_head hp data.2 rest) ?_ hbody
    · simp [layout, mirror, henc, hhash]
    · rw [List.length_append, hsize]
      exact Nat.le_add_right ..
  · rw [List.length_append, hsize] at hguard
    have hdata : data.1 = [] := List.eq_nil_of_length_eq_zero (by omega)
    refine .inr ⟨List.eq_nil_of_length_eq_zero (by omega), by rw [hdata, stripped]; simp, ?_⟩
    refine (SsrDecoder.ofLayout_inspect _ _).trans (Layout.turn_short fun h => ?_)
    have hlt : 4 < (s.packData crypto draw data.1).1.length := h.1
    omega

/-! ## Runs -/

/-- A codec whose header is sent: hash and cipher are set up. -/
def established (s : AuthChainCodec ρ) (hash : Vector UInt8 16) (enc : ρ) : AuthChainCodec ρ :=
  { s with lastClientHash := some hash, encRc4 := some enc }

/-- After the header the codec is established. -/
theorem packAuthHeader_established (s : AuthChainCodec ρ) (draw : Draw) :
    ∃ hash enc, (s.packAuthHeader crypto draw).2 =
      (s.packAuthHeader crypto draw).2.established hash enc :=
  ⟨_, _, rfl⟩

def pieceBytes (items : List (Draw × Piece)) : List Bytes := items.map fun item => item.2.1

/-- Once the header is sent, encoding one payload after another packs their pieces. -/
theorem encode_pieces (s : AuthChainCodec ρ) (h : s.sentHeader = true)
    (calls : List (Draws × Bytes)) :
    packAll (fun (t : AuthChainCodec ρ) (call : Draws × Bytes) => t.encode crypto call.1 call.2) s
        calls =
      s.packPieces crypto (calls.flatMap fun call => pieces call.1 call.2) := by
  have hsent (t : AuthChainCodec ρ) (items : List (Draw × Piece)) :
      (t.packPieces crypto items).2.sentHeader = t.sentHeader := by
    induction items generalizing t with
    | nil => rfl
    | cons item items ih => exact ih _
  induction calls generalizing s with
  | nil => rfl
  | cons call calls ih =>
    have hencode : s.encode crypto call.1 call.2 = s.packPieces crypto (pieces call.1 call.2) := by
      rw [encode, if_pos h]
    rw [packAll, hencode, ih _ ((hsent _ _).trans h), List.flatMap_cons]
    exact (packAll_append _ _ _ _).symm

/-- What the receiver makes of the pieces: the strip goes by the id of the frame. -/
def received (id : UInt32) : List Bytes → Bytes
  | [] => []
  | data :: rest => stripped id data ++ received (id + 1) rest

/-- The payloads, less the strip of the first frame. -/
def expected (id : UInt32) : List Bytes → Bytes
  | [] => []
  | data :: rest => stripped id data ++ rest.flatten

/-- No frame from `id` on both has the id 1 and is long enough to be stripped. -/
def NoneStripped (id : UInt32) : List Bytes → Prop
  | [] => True
  | data :: rest => (id = 1 → data.length < 2) ∧ NoneStripped (id + 1) rest

theorem stripped_length (id : UInt32) (data : Bytes) : (stripped id data).length ≤ data.length := by
  rw [stripped]
  split
  · rw [List.length_drop]
    exact Nat.sub_le ..
  · exact Nat.le_refl _

theorem received_length (id : UInt32) (datas : List Bytes) :
    (received id datas).length ≤ datas.flatten.length := by
  induction datas generalizing id with
  | nil => exact Nat.le_refl _
  | cons data rest ih =>
    rw [received, List.flatten_cons, List.length_append, List.length_append]
    exact Nat.add_le_add (stripped_length id data) (ih (id + 1))

theorem stripped_eq_iff (id : UInt32) (data : Bytes) :
    (stripped id data).length = data.length ↔ (id = 1 → data.length < 2) := by
  rw [stripped]
  by_cases h : id = 1 ∧ 2 ≤ data.length
  · rw [if_pos h, List.length_drop]
    exact ⟨fun hlen => by omega, fun hlt => absurd (hlt h.1) (Nat.not_lt.mpr h.2)⟩
  · rw [if_neg h]
    exact ⟨fun _ hid => Nat.lt_of_not_le fun hle => h ⟨hid, hle⟩, fun _ => rfl⟩

theorem received_eq_iff (id : UInt32) (datas : List Bytes) :
    received id datas = datas.flatten ↔ NoneStripped id datas := by
  induction datas generalizing id with
  | nil => exact ⟨fun _ => trivial, fun _ => rfl⟩
  | cons data rest ih =>
    have hs := stripped_length id data
    have hr := received_length (id + 1) rest
    rw [received, List.flatten_cons, NoneStripped, ← ih (id + 1), ← stripped_eq_iff]
    constructor
    · intro h
      have hlen := congrArg List.length h
      rw [List.length_append, List.length_append] at hlen
      have hsame : (stripped id data).length = data.length := by omega
      exact ⟨hsame, (List.append_inj h hsame).2⟩
    · rintro ⟨hlen,hrest⟩
      have hwhole : stripped id data = data := by
        rw [stripped]
        exact if_neg fun h => absurd ((stripped_eq_iff id data).mp hlen h.1) (Nat.not_lt.mpr h.2)
      rw [hwhole, hrest]

/-- The frames decode to the payloads, less the strip of the first frame; and however
they are cut, the receiver ends in the same state. -/
def RoundTrips (crypto : ChainCrypto ρ) (s : AuthChainCodec ρ) (items : List (Draw × Piece)) :
    Prop :=
  ∀ (receiver : AuthChainCodec ρ) (segments : List Bytes),
    segments.flatten = (s.packPieces crypto items).1 →
      (decoder crypto).Decodes (mirror s receiver) [] segments
        (expected s.packId (pieceBytes items)) ∧
      (decoder crypto).after (mirror s receiver) [] segments =
        (decoder crypto).after (mirror s receiver) [] [(s.packPieces crypto items).1]

/-- Packer and receiver between two frames. -/
def InStep (s receiver : AuthChainCodec ρ) : Prop :=
  (∃ other, receiver = mirror s other) ∧ (∃ enc, s.encRc4 = some enc) ∧
    ∃ hash, s.lastClientHash = some hash

theorem readAll_received (crypto : ChainCrypto ρ) (s : AuthChainCodec ρ) (items : List (Draw × Piece)) :
    readAll (fun (t : AuthChainCodec ρ) (item : Draw × Piece) => t.packData crypto item.1 item.2.1)
        (fun t item => stripped t.packId item.2.1) s items =
      received s.packId (pieceBytes items) := by
  induction items generalizing s with
  | nil => rfl
  | cons item items ih => exact congrArg (stripped s.packId item.2.1 ++ ·) (ih _)

theorem packData_ne_nil (s : AuthChainCodec ρ) (draw : Draw) (data : Bytes) :
    (s.packData crypto draw data).1 ≠ [] := by
  simp [packData, le16]

/-- One run over all frames: no fault, and the strip by id. -/
theorem run_packPieces (crypto : ChainCrypto ρ) (s receiver : AuthChainCodec ρ) (h : InStep s receiver)
    (items : List (Draw × Piece)) :
    ((decoder crypto).frames.run receiver (s.packPieces crypto items).1).fault = none ∧
      ((decoder crypto).frames.run receiver (s.packPieces crypto items).1).out =
        received s.packId (pieceBytes items) := by
  rw [← readAll_received crypto]
  have hpos : ∀ (t : AuthChainCodec ρ), ∀ item ∈ items,
      (t.packData crypto item.1 item.2.1).1 ≠ [] :=
    fun t item _ => packData_ne_nil t item.1 item.2.1
  have hnil : ∀ t r : AuthChainCodec ρ, InStep t r →
      (decoder crypto).frames.inspect r [] = .wait r := fun _ r _ => inspect_nil r
  refine run_packed (decoder crypto).frames hnil hpos ?_ s receiver h
  rintro t r item - rest ⟨⟨other,rfl⟩,⟨enc,henc⟩,hash,hhash⟩
  rcases packData_inspect crypto t other henc hhash item.1 item.2 rest with
    hi | ⟨hrest,hread,hw⟩
  · refine .inl ⟨_, hi, ⟨other, rfl⟩, ⟨crypto.rc4.after enc item.2.1, ?_⟩, _, rfl⟩
    simp [packData, henc]
  · exact .inr ⟨hrest, hread, _, hw⟩

theorem roundTrips_iff (s : AuthChainCodec ρ) (hash : Vector UInt8 16) (enc : ρ)
    (items : List (Draw × Piece)) :
    RoundTrips crypto (s.established hash enc) items ↔
      NoneStripped (s.packId + 1) (pieceBytes items.tail) := by
  have hstep (receiver : AuthChainCodec ρ) :
      InStep (s.established hash enc) (mirror (s.established hash enc) receiver) :=
    ⟨⟨receiver, rfl⟩, ⟨enc, rfl⟩, hash, rfl⟩
  have hiff : received s.packId (pieceBytes items) = expected s.packId (pieceBytes items) ↔
      NoneStripped (s.packId + 1) (pieceBytes items.tail) := by
    cases items with
    | nil => exact ⟨fun _ => trivial, fun _ => rfl⟩
    | cons item items =>
      rw [List.tail_cons, ← received_eq_iff]
      exact List.append_right_inj _
  rw [← hiff]
  constructor
  · intro h
    obtain ⟨hdec,_⟩ := h s [((s.established hash enc).packPieces crypto items).1]
      List.flatten_singleton
    rw [SsrDecoder.decodes_iff rfl (inspect_nil _), List.flatten_singleton] at hdec
    exact (run_packPieces crypto _ _ (hstep s) items).2.symm.trans hdec.2
  · intro h receiver segments hsegments
    obtain ⟨hfault,hout⟩ := run_packPieces crypto _ _ (hstep receiver) items
    refine ⟨?_, ?_⟩
    · rw [SsrDecoder.decodes_iff rfl (inspect_nil _), hsegments]
      exact ⟨hfault, hout.trans h⟩
    · rw [SsrDecoder.after_eq rfl (inspect_nil _) segments (by rw [hsegments]; exact hfault),
        SsrDecoder.after_eq rfl (inspect_nil _) [_]
          (by rw [List.flatten_singleton]; exact hfault), hsegments, List.flatten_singleton]

/-- The data channel round trips exactly when no frame after the first is stripped: the
ids count modulo 2^32, and a frame whose id is 1 again loses two bytes. -/
theorem auth_chain_round_trip_iff (crypto : ChainCrypto ρ) (s : AuthChainCodec ρ)
    (hash : Vector UInt8 16) (enc : ρ) (items : List (Draw × Piece)) :
    RoundTrips crypto (s.established hash enc) items ↔
      NoneStripped (s.packId + 1) (pieceBytes items.tail) :=
  roundTrips_iff s hash enc items

/-- A cipher that changes nothing. -/
def plainCrypto : ChainCrypto Unit where
  hmacMd5 _ _ := Vector.replicate 16 0
  rc4Next k := (0, k)
  initRc4 _ _ := ()
  encryptedBlock _ _ := Vector.replicate 16 0

/-- Two frames of two bytes each, the first under the last id before the wrap and the
second under the id 1: the second payload is lost. -/
theorem auth_chain_wrap_loses :
    ¬ RoundTrips plainCrypto
      (established { new [] [] [] (Vector.replicate 4 0) 0 .A 86400 0 with packId := 0 }
        (Vector.replicate 16 0) ())
      [(zeroDraw, ⟨[1, 2], by decide⟩), (zeroDraw, ⟨[3, 4], by decide⟩)] := by
  rw [roundTrips_iff]
  have hid : (0 : UInt32) + 1 = 1 := by decide
  change ¬ NoneStripped (0 + 1) [[3, 4]]
  rw [hid, NoneStripped]
  exact fun h => absurd (h.1 rfl) (by decide)

end AuthChainCodec
end AtlasKernel.Shadowsocks.Ssr
