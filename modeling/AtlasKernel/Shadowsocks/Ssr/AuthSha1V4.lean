import AtlasKernel.Shadowsocks.Ssr.EarlyAuth

/-! auth_sha1_v4. CRC-32 and HMAC-SHA1 are any functions. Source: `shadowsocks/ssr.rs`. -/
namespace AtlasKernel.Shadowsocks.Ssr
open AtlasKernel.Lib FrameDecoder

/-- `pack_auth_sha1_v4_random` -/
def packAuthSha1V4Random (draw : Draw) (size : Nat) : Bytes :=
  (if size < 128 then [UInt8.ofNat (size + 1)] else 255 :: be16 (size + 3)) ++
    pushRandomBytes draw size

theorem packAuthSha1V4Random_length (draw : Draw) (size : Nat) :
    (packAuthSha1V4Random draw size).length = (if size < 128 then 1 else 3) + size := by
  rw [packAuthSha1V4Random, List.length_append, pushRandomBytes_length]
  split <;> rfl

/-- `get_auth_sha1_v4_data_len` -/
def getAuthSha1V4DataLen (draw : Draw) (data : Bytes) : Nat :=
  min data.length (getSsrHeadSize data 30 + draw.byte.toNat % 32)

structure AuthSha1V4Codec where
  key : Bytes
  iv : Bytes
  clientId : Vector UInt8 4
  connectionId : UInt32
  sentHeader : Bool
  rawRecv : Bool
deriving DecidableEq, Repr

namespace AuthSha1V4Codec
variable (crc32 : Crc32) (hmacSha1 : HmacSha1)

def randomDataLen (draw : Draw) (size : Nat) : Nat :=
  if 1200 < size then 0
  else if 400 < size then draw.byte.toNat
  else draw.word.toNat % 512

def putAuthData (s : AuthSha1V4Codec) (now : UInt32) : Bytes × AuthSha1V4Codec :=
  (le32 now.toNat ++ s.clientId.toList ++ le32 s.connectionId.toNat,
    { s with connectionId := s.connectionId + 1 })

def packAuthData (s : AuthSha1V4Codec) (draw : Draw) (now : UInt32) (data : Bytes) :
    Bytes × AuthSha1V4Codec :=
  let randomLen := randomDataLen draw (12 + data.length)
  let packedLen := 2 + 4 + 3 + randomLen + 12 + data.length + 10
  let packedLen := if randomLen < 128 then packedLen - 2 else packedLen
  let crcData := be16 packedLen ++ utf8 "auth_sha1_v4".toList ++ s.key
  let authData := s.putAuthData now
  let output := be16 packedLen ++ le32 (crc32 crcData).toNat ++
    packAuthSha1V4Random draw randomLen ++ authData.1 ++ data
  (output ++ (hmacSha1 (s.iv ++ s.key) (output.drop 10)).toList.take 10, authData.2)

/-- The checksum is taken from behind the length and its CRC. -/
def packData (draw : Draw) (data : Bytes) : Bytes :=
  let randomLen := randomDataLen draw data.length
  let packedLen := 2 + 2 + 3 + randomLen + data.length + 4
  let packedLen := if randomLen < 128 then packedLen - 2 else packedLen
  let front := be16 packedLen ++ le16 (crc32 (be16 packedLen)).toNat
  let inner := packAuthSha1V4Random draw randomLen ++ data
  front ++ inner ++ le32 (adler32 inner)

/-- The data frames of what the auth frame has left of a payload. -/
def dataFrames (draw : Nat → Draw) (remaining : Bytes) : List Bytes :=
  (chunks 8100 remaining).mapIdx fun i chunk => packData crc32 (draw i) chunk

def encode (s : AuthSha1V4Codec) (d : Draws) (payload : Bytes) : Bytes × AuthSha1V4Codec :=
  if s.sentHeader then ((dataFrames crc32 d.data payload).flatten, s)
  else
    let dataLen := getAuthSha1V4DataLen d.head payload
    let (auth, s) := s.packAuthData crc32 hmacSha1 d.auth d.now (payload.take dataLen)
    (auth ++ (dataFrames crc32 d.data (payload.drop dataLen)).flatten,
      { s with sentHeader := true })

/-! ## The decoder -/

def head (s : AuthSha1V4Codec) (front : Bytes) : Except IoError Nat × AuthSha1V4Codec :=
  if (crc32 (front.take 2)).toNat % 65536 ≠ le16At front 2 then
    (.error ⟨.invalidData, "ShadowsocksR auth_sha1_v4 response CRC mismatch"⟩, s)
  else
    let length := be16At front 0
    if 7 ≤ length ∧ length < 8192 then (.ok length, s)
    else (.error ⟨.invalidData, "ShadowsocksR auth_sha1_v4 response length is invalid"⟩,
      { s with rawRecv := true })

/-- With invalid padding the frame stays in the buffer. -/
def body (s : AuthSha1V4Codec) (frame : Bytes) :
    Except (IoError × Leftover) Bytes × AuthSha1V4Codec :=
  let length := frame.length
  if adler32 (frame.take (length - 4)) ≠ le32At frame (length - 4) then
    (.error (⟨.invalidData, "ShadowsocksR auth_sha1_v4 response checksum mismatch"⟩, .nothing),
      { s with rawRecv := true })
  else if length - 4 < dataPos be16At frame then
    (.error (⟨.invalidData, "ShadowsocksR auth_sha1_v4 response padding is invalid"⟩,
      .everything), s)
  else (.ok (slice frame (dataPos be16At frame) (length - 4)), s)

variable {crc32 : Crc32} {hmacSha1 : HmacSha1} {s s' : AuthSha1V4Codec}

theorem head_ok {front : Bytes} {n : Nat} (h : s.head crc32 front = (.ok n, s')) :
    s' = s ∧ n = be16At front 0 ∧ 7 ≤ n ∧ n < 8192 ∧
      (crc32 (front.take 2)).toNat % 65536 = le16At front 2 := by
  rw [head] at h
  by_cases hcrc : (crc32 (front.take 2)).toNat % 65536 ≠ le16At front 2
  · rw [if_pos hcrc] at h
    cases h
  · rw [if_neg hcrc] at h
    by_cases hlen : 7 ≤ be16At front 0 ∧ be16At front 0 < 8192
    · simp only [if_pos hlen] at h
      cases h
      exact ⟨rfl, rfl, hlen.1, hlen.2, not_ne_iff.mp hcrc⟩
    · simp only [if_neg hlen] at h
      cases h

theorem body_ok {frame out : Bytes} (h : s.body frame = (.ok out, s')) :
    s' = s ∧ adler32 (frame.take (frame.length - 4)) = le32At frame (frame.length - 4) ∧
      dataPos be16At frame ≤ frame.length - 4 ∧
      out = slice frame (dataPos be16At frame) (frame.length - 4) := by
  rw [body] at h
  by_cases hsum : adler32 (frame.take (frame.length - 4)) ≠ le32At frame (frame.length - 4)
  · rw [if_pos hsum] at h
    cases h
  · rw [if_neg hsum] at h
    by_cases hpos : frame.length - 4 < dataPos be16At frame
    · rw [if_pos hpos] at h
      cases h
    · rw [if_neg hpos] at h
      cases h
      exact ⟨rfl, not_ne_iff.mp hsum, Nat.not_lt.mp hpos, rfl⟩

def layout (crc32 : Crc32) : Layout AuthSha1V4Codec UInt8 UInt8 IoError where
  guard _ := 4
  ready _ := true
  head := head crc32
  body := body
  head_pos h := Nat.lt_of_lt_of_le (by decide) (head_ok h).2.2.1
  head_again := by
    intro s front n s' _ h
    obtain ⟨rfl,_⟩ := head_ok h
    exact ⟨rfl, rfl, h⟩

def decoder (crc32 : Crc32) : SsrDecoder AuthSha1V4Codec :=
  .ofLayout (layout crc32) rawRecv (fun h => by rw [(head_ok h).1])
    (fun h => by rw [(body_ok h).1])

/-- CRC of the length right, length in range and right, checksum right, payload within
the frame. -/
def Checked (crc32 : Crc32) (s : AuthSha1V4Codec) (frame out : Bytes) (s' : AuthSha1V4Codec) :
    Prop :=
  (crc32 (frame.take 2)).toNat % 65536 = le16At frame 2 ∧
  frame.length = be16At frame 0 ∧ 7 ≤ frame.length ∧ frame.length < 8192 ∧
  adler32 (frame.take (frame.length - 4)) = le32At frame (frame.length - 4) ∧
  dataPos be16At frame ≤ frame.length - 4 ∧
  out = slice frame (dataPos be16At frame) (frame.length - 4) ∧ s' = s

theorem checks : (decoder crc32).frames.Checks id (Checked crc32) := by
  refine Layout.checks (fun h => congrArg id (head_ok h).1) ?_
  intro s buf n s' out s'' hguard hle hh hb
  obtain ⟨rfl,hn,hmin,hmax,hcrc⟩ := head_ok hh
  obtain ⟨rfl,hsum,hpos,hout⟩ := body_ok hb
  have hlen : (buf.take n).length = n := List.length_take_of_le hle
  have hhead : be16At (buf.take 4) 0 = be16At buf 0 := be16At_take (by decide)
  have hcheck : le16At (buf.take 4) 2 = le16At buf 2 := le16At_take (by decide)
  have hfront : (buf.take 4).take 2 = (buf.take n).take 2 := by
    rw [List.take_take, List.take_take, Nat.min_eq_left (by decide), Nat.min_eq_left (by omega)]
  change (crc32 ((buf.take 4).take 2)).toNat % 65536 = le16At (buf.take 4) 2 at hcrc
  refine ⟨?_, ?_, by rwa [hlen], by rwa [hlen], hsum, hpos, hout, rfl⟩
  · rw [← hfront, le16At_take (by omega), ← hcheck]
    exact hcrc
  · rw [hlen, be16At_take (by omega), ← hhead]
    exact hn

/-! ## Data frames -/

theorem randomDataLen_bound (draw : Draw) {size : Nat} (h : size ≤ 8100) :
    randomDataLen draw size + size ≤ 8100 := by
  have hbyte := draw.byte.toNat_lt
  rw [randomDataLen]
  split
  · omega
  split <;> omega

theorem packData_shape (crc32 : Crc32) (draw : Draw) {data : Bytes} (h : data.length ≤ 8100) :
    ∃ n crc inner, packData crc32 draw data = be16 n ++ le16 crc ++ inner ++ le32 (adler32 inner) ∧
      crc = (crc32 (be16 n)).toNat ∧ (packData crc32 draw data).length = n ∧ 7 ≤ n ∧ n < 8192 := by
  have hbound := randomDataLen_bound draw h
  refine ⟨_, _, _, rfl, rfl, ?_, ?_, ?_⟩
  · simp only [packData, List.length_append, be16_length, le16_length, le32_length,
      packAuthSha1V4Random_length]
    split <;> omega
  · split <;> omega
  · split <;> omega

/-- Every data frame is rejected for its checksum. -/
theorem packData_fault (receiver : AuthSha1V4Codec) (draw : Draw) {data : Bytes}
    (h : data.length ≤ 8100) (rest : Bytes) :
    ((decoder crc32).frames.run receiver (packData crc32 draw data ++ rest)).fault ≠ none := by
  obtain ⟨n,crc,inner,hshape,hcrc,hlen,hmin,hmax⟩ := packData_shape crc32 draw h
  have hle : n ≤ (packData crc32 draw data ++ rest).length := by
    rw [List.length_append, hlen]
    exact Nat.le_add_right ..
  have hfront : (packData crc32 draw data ++ rest).take 4 = be16 n ++ le16 crc := by
    rw [hshape, List.append_assoc, List.append_assoc]
    exact List.take_left' rfl
  have hhead : receiver.head crc32 ((packData crc32 draw data ++ rest).take 4) =
      (.ok n, receiver) := by
    have hfield : be16At (be16 n ++ le16 crc) 0 = n := by
      rw [be16At_be16, Nat.mod_eq_of_lt (by omega)]
    have hcheck : le16At (be16 n ++ le16 crc) 2 = crc % 65536 := by
      have hright := le16At_append_right (be16 n) (le16 crc) 0
      have hback := le16At_le16 crc []
      rw [List.append_nil] at hback
      exact hright.trans hback
    have htake : (be16 n ++ le16 crc).take 2 = be16 n := List.take_left' rfl
    rw [hfront, head, htake, hcheck, hcrc, if_neg (not_ne_iff.mpr rfl)]
    rw [hcrc] at hfield
    simp only [hfield, if_pos (And.intro hmin hmax)]
  have hsum := checksum_behind_front (be16 n ++ le16 crc) (by
    rw [byteSum_append]
    exact Nat.add_pos_left (byteSum_be16 (by omega) (by omega)) _) (by simp) inner
  rw [← hshape] at hsum
  have hbody : receiver.body ((packData crc32 draw data ++ rest).take n) =
      (.error (⟨.invalidData, "ShadowsocksR auth_sha1_v4 response checksum mismatch"⟩, .nothing),
        { receiver with rawRecv := true }) := by
    rw [List.take_left' hlen, body, if_pos hsum]
  have hturn : (decoder crc32).frames.inspect receiver (packData crc32 draw data ++ rest) = _ :=
    Layout.turn_body_fault (l := layout crc32) ⟨by change 4 < _; omega, rfl⟩ hhead hle hbody
  rw [run_fault hturn]
  exact nofun

theorem inspect_nil (s : AuthSha1V4Codec) : (decoder crc32).frames.inspect s [] = .wait s :=
  (SsrDecoder.ofLayout_inspect s []).trans ((layout crc32).turn_nil s)

/-! ## Runs -/

/-- What one `encode` after another puts out once the header is sent. -/
def dataStream (crc32 : Crc32) (hmacSha1 : HmacSha1) (s : AuthSha1V4Codec)
    (calls : List (Draws × Bytes)) : Bytes :=
  (packAll (fun (t : AuthSha1V4Codec) (call : Draws × Bytes) =>
    t.encode crc32 hmacSha1 call.1 call.2) { s with sentHeader := true } calls).1

/-- The data frames decode to the payloads, however they are cut. -/
def RoundTrips (crc32 : Crc32) (hmacSha1 : HmacSha1) (s : AuthSha1V4Codec)
    (calls : List (Draws × Bytes)) : Prop :=
  ∀ receiver : AuthSha1V4Codec, receiver.rawRecv = false → ∀ pieces : List Bytes,
    pieces.flatten = dataStream crc32 hmacSha1 s calls →
      (decoder crc32).Decodes receiver [] pieces (calls.flatMap Prod.snd)

theorem dataStream_cons (d : Draws) (payload : Bytes) (calls : List (Draws × Bytes)) :
    dataStream crc32 hmacSha1 s ((d, payload) :: calls) =
      (dataFrames crc32 d.data payload).flatten ++ dataStream crc32 hmacSha1 s calls := by
  simp only [dataStream, packAll, encode, if_true]

/-- With a payload among them, the stream begins with a data frame. -/
theorem dataStream_first (crc32 : Crc32) (hmacSha1 : HmacSha1) (s : AuthSha1V4Codec)
    {calls : List (Draws × Bytes)} (h : ¬ ∀ call ∈ calls, call.2 = []) :
    ∃ draw data rest, data.length ≤ 8100 ∧
      dataStream crc32 hmacSha1 s calls = packData crc32 draw data ++ rest := by
  induction calls with
  | nil => exact absurd (fun call hcall => absurd hcall List.not_mem_nil) h
  | cons call calls ih =>
    obtain ⟨d,payload⟩ := call
    rw [dataStream_cons]
    by_cases hp : payload = []
    · have hnil : dataFrames crc32 d.data payload = [] := by
        rw [hp, dataFrames, chunks, dif_pos (.inl rfl), List.mapIdx_nil]
      rw [List.forall_mem_cons, not_and] at h
      obtain ⟨draw,data,rest,hdata,heq⟩ := ih (h hp)
      exact ⟨draw, data, rest, hdata, by rw [hnil, heq]; rfl⟩
    · have hlen : (payload.take 8100).length ≤ 8100 := by
        rw [List.length_take]
        omega
      rw [dataFrames, chunks, dif_neg (not_or.mpr ⟨hp, by decide⟩), List.mapIdx_cons,
        List.flatten_cons, List.append_assoc]
      exact ⟨d.data 0, payload.take 8100, _, hlen, rfl⟩

theorem dataStream_silent (crc32 : Crc32) (hmacSha1 : HmacSha1) (s : AuthSha1V4Codec) {calls : List (Draws × Bytes)} (h : ∀ call ∈ calls, call.2 = []) :
    dataStream crc32 hmacSha1 s calls = [] ∧ calls.flatMap Prod.snd = [] := by
  refine ⟨?_, List.flatMap_eq_nil_iff.mpr h⟩
  induction calls with
  | nil => rfl
  | cons call calls ih =>
    obtain ⟨d,payload⟩ := call
    obtain ⟨hp,hrest⟩ := List.forall_mem_cons.mp h
    rw [dataStream_cons, ih hrest, dataFrames, chunks, dif_pos (.inl hp)]
    rfl

theorem roundTrips_iff (calls : List (Draws × Bytes)) :
    RoundTrips crc32 hmacSha1 s calls ↔ ∀ call ∈ calls, call.2 = [] := by
  constructor
  · intro h
    by_contra hne
    obtain ⟨draw,data,rest,hlen,hstream⟩ :=
      dataStream_first crc32 hmacSha1 s hne
    have hall := h { s with rawRecv := false } rfl [packData crc32 draw data ++ rest]
      (by rw [hstream, List.flatten_singleton])
    rw [SsrDecoder.decodes_iff rfl (inspect_nil _), List.flatten_singleton] at hall
    exact packData_fault _ draw hlen rest hall.1
  · intro hnone receiver hraw pieces hpieces
    obtain ⟨hstream,hpayload⟩ :=
      dataStream_silent crc32 hmacSha1 s hnone
    rw [SsrDecoder.decodes_iff hraw (inspect_nil _), hpieces, hstream, hpayload,
      List.append_nil, run_wait (inspect_nil _)]
    exact ⟨rfl, rfl⟩

end AuthSha1V4Codec
end AtlasKernel.Shadowsocks.Ssr
