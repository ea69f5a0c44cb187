import AtlasKernel.Shadowsocks.Ssr.AuthSha1V4

/-! auth_aes128_md5 and auth_aes128_sha1, from behind the auth frame on. The two HMACs are
any functions. Source: `shadowsocks/ssr.rs`. -/
namespace AtlasKernel.Shadowsocks.Ssr
open AtlasKernel.Lib FrameDecoder

structure Macs where
  hmacMd5 : Bytes → Bytes → Vector UInt8 16
  hmacSha1 : HmacSha1

inductive SsrHmacKind where
  | md5
  | sha1
deriving DecidableEq, Repr

def SsrHmacKind.digestFixed (macs : Macs) (kind : SsrHmacKind) (key data : Bytes) : Bytes :=
  match kind with
  | .md5 => (macs.hmacMd5 key data).toList ++ List.replicate 4 0
  | .sha1 => (macs.hmacSha1 key data).toList

theorem SsrHmacKind.digestFixed_length (macs : Macs) (kind : SsrHmacKind) (key data : Bytes) :
    (kind.digestFixed macs key data).length = 20 := by
  cases kind <;> simp [SsrHmacKind.digestFixed]

structure AuthAes128Codec where
  userKey : Bytes
  hmacKind : SsrHmacKind
  packId : UInt32
  recvId : UInt32
  rawRecv : Bool
deriving DecidableEq, Repr

namespace AuthAes128Codec
variable (macs : Macs)

/-- `with_appended_u32_le(user_key, id, digest)` -/
def mac (s : AuthAes128Codec) (id : UInt32) (data : Bytes) : Bytes :=
  s.hmacKind.digestFixed macs (s.userKey ++ le32 id.toNat) data

def randDataLen (draw : Draw) (dataLen fullLen : Nat) : Nat :=
  if 32 * 1024 ≤ fullLen then 0
  else
    let rev : Int := 1460 - dataLen - 9
    if rev = 0 then 0
    else if rev < 0 then
      if -1460 < rev then draw.word.toNat % (rev + 1460).toNat
      else draw.byte.toNat % 32
    else draw.word.toNat % rev.toNat

/-- The second tag is taken from behind the length and the first tag. -/
def packData (s : AuthAes128Codec) (draw : Draw) (data : Bytes) (fullLen : Nat) :
    Bytes × AuthAes128Codec :=
  let randomLen := randDataLen draw data.length fullLen
  let packedLen := 2 + 2 + 3 + randomLen + data.length + 4
  let packedLen := if randomLen < 128 then packedLen - 2 else packedLen
  let front := le16 packedLen ++ (s.mac macs s.packId (le16 packedLen)).take 2
  let inner := packAuthSha1V4Random draw randomLen ++ data
  (front ++ inner ++ (s.mac macs s.packId inner).take 4, { s with packId := s.packId + 1 })

/-- What `encode` appends once the header is sent. -/
def encodeData (s : AuthAes128Codec) (d : Draws) (payload : Bytes) : Bytes × AuthAes128Codec :=
  packAll (fun (t : AuthAes128Codec) (item : Draw × Bytes) =>
      t.packData macs item.1 item.2 payload.length) s
    ((chunks 8100 payload).mapIdx fun i chunk => (d.data i, chunk))

/-! ## The decoder -/

def head (s : AuthAes128Codec) (front : Bytes) : Except IoError Nat × AuthAes128Codec :=
  if (s.mac macs s.recvId (front.take 2)).take 2 ≠ slice front 2 4 then
    (.error ⟨.invalidData, "ShadowsocksR auth_aes128 response MAC mismatch"⟩, s)
  else
    let length := le16At front 0
    if 7 ≤ length ∧ length < 8192 then (.ok length, s)
    else (.error ⟨.invalidData, "ShadowsocksR auth_aes128 response length is invalid"⟩,
      { s with rawRecv := true })

/-- With invalid padding the id is used up and the frame stays in the buffer. -/
def body (s : AuthAes128Codec) (frame : Bytes) :
    Except (IoError × Leftover) Bytes × AuthAes128Codec :=
  let length := frame.length
  if (s.mac macs s.recvId (frame.take (length - 4))).take 4 ≠ frame.drop (length - 4) then
    (.error (⟨.invalidData, "ShadowsocksR auth_aes128 response checksum mismatch"⟩, .nothing),
      { s with rawRecv := true })
  else
    let s := { s with recvId := s.recvId + 1 }
    if length - 4 < dataPos le16At frame then
      (.error (⟨.invalidData, "ShadowsocksR auth_aes128 response padding is invalid"⟩,
        .everything), s)
    else (.ok (slice frame (dataPos le16At frame) (length - 4)), s)

variable {macs : Macs} {s s' : AuthAes128Codec}

theorem head_ok {front : Bytes} {n : Nat} (h : s.head macs front = (.ok n, s')) :
    s' = s ∧ n = le16At front 0 ∧ 7 ≤ n ∧ n < 8192 ∧
      (s.mac macs s.recvId (front.take 2)).take 2 = slice front 2 4 := by
  rw [head] at h
  by_cases hmac : (s.mac macs s.recvId (front.take 2)).take 2 ≠ slice front 2 4
  · rw [if_pos hmac] at h
    cases h
  · rw [if_neg hmac] at h
    by_cases hlen : 7 ≤ le16At front 0 ∧ le16At front 0 < 8192
    · simp only [if_pos hlen] at h
      cases h
      exact ⟨rfl, rfl, hlen.1, hlen.2, not_ne_iff.mp hmac⟩
    · simp only [if_neg hlen] at h
      cases h

theorem body_ok {frame out : Bytes} (h : s.body macs frame = (.ok out, s')) :
    s' = { s with recvId := s.recvId + 1 } ∧
      (s.mac macs s.recvId (frame.take (frame.length - 4))).take 4 =
        frame.drop (frame.length - 4) ∧
      dataPos le16At frame ≤ frame.length - 4 ∧
      out = slice frame (dataPos le16At frame) (frame.length - 4) := by
  rw [body] at h
  by_cases hmac : (s.mac macs s.recvId (frame.take (frame.length - 4))).take 4 ≠
      frame.drop (frame.length - 4)
  · rw [if_pos hmac] at h
    cases h
  · rw [if_neg hmac] at h
    by_cases hpos : frame.length - 4 < dataPos le16At frame
    · simp only [if_pos hpos] at h
      cases h
    · simp only [if_neg hpos] at h
      cases h
      exact ⟨rfl, not_ne_iff.mp hmac, Nat.not_lt.mp hpos, rfl⟩

def layout (macs : Macs) : Layout AuthAes128Codec UInt8 UInt8 IoError where
  guard _ := 4
  ready _ := true
  head := head macs
  body := body macs
  head_pos h := Nat.lt_of_lt_of_le (by decide) (head_ok h).2.2.1
  head_again := by
    intro s front n s' _ h
    obtain ⟨rfl,_⟩ := head_ok h
    exact ⟨rfl, rfl, h⟩

def decoder (macs : Macs) : SsrDecoder AuthAes128Codec :=
  .ofLayout (layout macs) rawRecv (fun h => by rw [(head_ok h).1])
    (fun h => by rw [(body_ok h).1])

/-- Both tags right under the next id, length in range and right, payload within the
frame. -/
def Checked (macs : Macs) (s : AuthAes128Codec) (frame out : Bytes) (s' : AuthAes128Codec) :
    Prop :=
  (s.mac macs s.recvId (frame.take 2)).take 2 = slice frame 2 4 ∧
  frame.length = le16At frame 0 ∧ 7 ≤ frame.length ∧ frame.length < 8192 ∧
  (s.mac macs s.recvId (frame.take (frame.length - 4))).take 4 = frame.drop (frame.length - 4) ∧
  dataPos le16At frame ≤ frame.length - 4 ∧
  out = slice frame (dataPos le16At frame) (frame.length - 4) ∧
  s' = { s with recvId := s.recvId + 1 }

theorem checks : (decoder macs).frames.Checks id (Checked macs) := by
  refine Layout.checks (fun h => congrArg id (head_ok h).1) ?_
  intro s buf n s' out s'' hguard hle hh hb
  obtain ⟨rfl,hn,hmin,hmax,hmac⟩ := head_ok hh
  obtain ⟨hs,htag,hpos,hout⟩ := body_ok hb
  have hlen : (buf.take n).length = n := List.length_take_of_le hle
  have hhead : le16At (buf.take 4) 0 = le16At buf 0 := le16At_take (by decide)
  have hslice : slice (buf.take 4) 2 4 = slice (buf.take n) 2 4 := by
    rw [slice, slice, List.take_take, List.take_take, Nat.min_self, Nat.min_eq_left (by omega)]
  have hfront : (buf.take 4).take 2 = (buf.take n).take 2 := by
    rw [List.take_take, List.take_take, Nat.min_eq_left (by decide), Nat.min_eq_left (by omega)]
  have hguard4 : (layout macs).guard s' = 4 := rfl
  rw [hguard4, hfront, hslice] at hmac
  refine ⟨hmac, ?_, by rwa [hlen], by rwa [hlen], htag, hpos, hout, hs⟩
  rw [hlen, le16At_take (by omega), ← hhead]
  exact hn

/-! ## Data frames -/

theorem randDataLen_bound (draw : Draw) {dataLen : Nat} (fullLen : Nat) (h : dataLen ≤ 8100) :
    randDataLen draw dataLen fullLen + dataLen ≤ 8150 ∧
      randDataLen draw dataLen fullLen < 65536 := by
  have hword := draw.word.toNat_lt
  rw [randDataLen]
  split
  · omega
  simp only
  split
  · omega
  split
  · split
    · have hpos : 0 < ((1460 - dataLen - 9 : Int) + 1460).toNat := by omega
      have hmod := Nat.mod_lt draw.word.toNat hpos
      omega
    · omega
  · have hpos : 0 < (1460 - dataLen - 9 : Int).toNat := by omega
    have hmod := Nat.mod_lt draw.word.toNat hpos
    omega

/-- The receiver of the frames `s` packs: same key, its next id that of the packer. -/
def mirror (s receiver : AuthAes128Codec) : AuthAes128Codec :=
  { receiver with
    userKey := s.userKey, hmacKind := s.hmacKind, recvId := s.packId, rawRecv := false }

theorem mirror_mac (s receiver : AuthAes128Codec) (data : Bytes) :
    (mirror s receiver).mac macs (mirror s receiver).recvId data = s.mac macs s.packId data := rfl

theorem mac_length (s : AuthAes128Codec) (id : UInt32) (data : Bytes) :
    (s.mac macs id data).length = 20 := SsrHmacKind.digestFixed_length ..

/-- A word read with its bytes swapped is never the word itself less three. -/
theorem swapped_ne {x : Nat} (h : x < 65536) (h' : 3 ≤ x) : le16At (be16 x) 0 + 3 ≠ x := by
  have hswap : le16At (be16 x) 0 = x % 256 * 256 + x / 256 := by
    simp only [le16At, ofBe16, be16, byteAt_zero, byteAt_succ, UInt8.toNat_ofNat']
    omega
  have hsplit := Nat.div_add_mod x 256
  rw [hswap]
  intro heq
  -- both words are the same modulo 255
  have hmod : 255 * (x / 256) = 255 * (x % 256) + 3 := by omega
  omega

/-- Where the decoder looks for the payload, it is not. -/
theorem dataPos_random (draw : Draw) {size : Nat} (h : size < 8192) (front : Bytes)
    (hfront : front.length = 4) (data : Bytes) :
    dataPos le16At (front ++ (packAuthSha1V4Random draw size ++ data)) ≠
      4 + (packAuthSha1V4Random draw size).length := by
  have hbyte (bs : Bytes) : byteAt (front ++ bs) 4 = byteAt bs 0 := by
    have hright := byteAt_append_right front bs 0
    rwa [hfront] at hright
  have hword (b : UInt8) (bs : Bytes) : le16At (front ++ b :: bs) 5 = le16At bs 0 := by
    have hright := le16At_append_right (front ++ [b]) bs 0
    rw [List.length_append, hfront, List.append_assoc] at hright
    exact hright
  rw [packAuthSha1V4Random_length, dataPos, hbyte, packAuthSha1V4Random]
  by_cases hsize : size < 128
  · have hfirst : (UInt8.ofNat (size + 1)).toNat = size + 1 := by
      rw [UInt8.toNat_ofNat']
      omega
    have hlt : UInt8.ofNat (size + 1) < 255 := by
      rw [UInt8.lt_iff_toNat_lt, hfirst]
      change size + 1 < 255
      omega
    simp only [if_pos hsize, List.cons_append, byteAt_zero, if_pos hlt,
      hfirst]
    omega
  · have hswap := swapped_ne (x := size + 3) (by omega) (by omega)
    have hlong : ¬ (255 : UInt8) < 255 := by decide
    simp only [if_neg hsize, List.cons_append, byteAt_zero, hword, if_neg hlong]
    have hread : le16At (be16 (size + 3) ++ pushRandomBytes draw size ++ data) 0 =
        le16At (be16 (size + 3)) 0 := by
      rw [List.append_assoc]
      rfl
    rw [hread]
    omega

theorem packData_shape (macs : Macs) (s : AuthAes128Codec) (draw : Draw) {data : Bytes} (fullLen : Nat)
    (h : data.length ≤ 8100) :
    ∃ n size, (s.packData macs draw data fullLen).1 =
        le16 n ++ (s.mac macs s.packId (le16 n)).take 2 ++
          (packAuthSha1V4Random draw size ++ data) ++
          (s.mac macs s.packId (packAuthSha1V4Random draw size ++ data)).take 4 ∧
      (s.packData macs draw data fullLen).1.length = n ∧ 7 ≤ n ∧ n < 8192 ∧ size < 8192 ∧
      n = 8 + (packAuthSha1V4Random draw size).length + data.length := by
  obtain ⟨hbound,_⟩ := randDataLen_bound draw fullLen h
  refine ⟨_, randDataLen draw data.length fullLen, rfl, ?_, ?_, ?_, ?_, ?_⟩
  · simp only [packData, List.length_append, le16_length, List.length_take, mac_length,
      packAuthSha1V4Random_length]
    split <;> omega
  · split <;> omega
  · split <;> omega
  · omega
  · rw [packAuthSha1V4Random_length]
    split <;> omega

/-- The head of a data frame passes. -/
theorem packData_head (s receiver : AuthAes128Codec) {n : Nat} (hmin : 7 ≤ n) (hmax : n < 8192)
    (bs : Bytes) :
    (mirror s receiver).head macs
        ((le16 n ++ (s.mac macs s.packId (le16 n)).take 2 ++ bs).take 4) =
      (.ok n, mirror s receiver) := by
  have hlen : (le16 n ++ (s.mac macs s.packId (le16 n)).take 2).length = 4 := by
    rw [List.length_append, List.length_take, mac_length]
    rfl
  have hfield : le16At (le16 n ++ (s.mac macs s.packId (le16 n)).take 2) 0 = n := by
    rw [le16At_le16, Nat.mod_eq_of_lt (by omega)]
  have htake : (le16 n ++ (s.mac macs s.packId (le16 n)).take 2).take 2 = le16 n :=
    List.take_left' rfl
  have hslice : slice (le16 n ++ (s.mac macs s.packId (le16 n)).take 2) 2 4 =
      (s.mac macs s.packId (le16 n)).take 2 := by
    rw [slice, List.take_of_length_le (Nat.le_of_eq hlen)]
    exact List.drop_left' rfl
  rw [List.take_left' hlen, head, htake, mirror_mac, hslice, if_neg (not_ne_iff.mpr rfl)]
  simp only [hfield, if_pos (And.intro hmin hmax)]

/-- A data frame is rejected, or read as a payload of another length. -/
theorem packData_misread (macs : Macs) (s receiver : AuthAes128Codec) (draw : Draw) {data : Bytes}
    (fullLen : Nat) (h : data.length ≤ 8100) (rest : Bytes) :
    (∃ s' rest' e, (decoder macs).frames.inspect (mirror s receiver)
      ((s.packData macs draw data fullLen).1 ++ rest) = .fault s' rest' e) ∨
    (∃ s' out, (decoder macs).frames.inspect (mirror s receiver)
      ((s.packData macs draw data fullLen).1 ++ rest) =
        .frame s' (s.packData macs draw data fullLen).1.length out ∧
      out.length ≠ data.length) := by
  obtain ⟨n,size,hshape,hlen,hmin,hmax,hsize,hn⟩ := packData_shape macs s draw fullLen h
  have hguard : 4 < ((s.packData macs draw data fullLen).1 ++ rest).length := by
    rw [List.length_append, hlen]
    omega
  have hle : n ≤ ((s.packData macs draw data fullLen).1 ++ rest).length := by
    rw [List.length_append, hlen]
    exact Nat.le_add_right ..
  have hhead : (mirror s receiver).head macs
      (((s.packData macs draw data fullLen).1 ++ rest).take 4) = (.ok n, mirror s receiver) := by
    rw [hshape, List.append_assoc, List.append_assoc]
    exact packData_head s receiver hmin hmax _
  have hpos := dataPos_random draw hsize
    (le16 n ++ (s.mac macs s.packId (le16 n)).take 2)
    (by rw [List.length_append, List.length_take, mac_length]; rfl)
    (data ++ (s.mac macs s.packId (packAuthSha1V4Random draw size ++ data)).take 4)
  have hframe : (s.packData macs draw data fullLen).1 =
      le16 n ++ (s.mac macs s.packId (le16 n)).take 2 ++ (packAuthSha1V4Random draw size ++
        (data ++ (s.mac macs s.packId (packAuthSha1V4Random draw size ++ data)).take 4)) := by
    rw [hshape, List.append_assoc, List.append_assoc, List.append_assoc, List.append_assoc]
  rw [← hframe] at hpos
  have htake : ((s.packData macs draw data fullLen).1 ++ rest).take n =
      (s.packData macs draw data fullLen).1 := List.take_left' hlen
  rcases hb : (mirror s receiver).body macs (s.packData macs draw data fullLen).1 with ⟨r,s'⟩
  rw [← htake] at hb
  cases r with
  | error f =>
    exact .inl ⟨s', f.2.of n _, f.1, Layout.turn_body_fault (l := layout macs) ⟨hguard, rfl⟩
      hhead hle hb⟩
  | ok out =>
    refine .inr ⟨s', out, ?_, ?_⟩
    · rw [hlen]
      exact Layout.turn_body (l := layout macs) ⟨hguard, rfl⟩ hhead hle hb
    · rw [htake] at hb
      obtain ⟨_,_,hfit,rfl⟩ := body_ok hb
      rw [slice_length, hlen] at *
      omega

theorem inspect_nil (s : AuthAes128Codec) : (decoder macs).frames.inspect s [] = .wait s :=
  (SsrDecoder.ofLayout_inspect s []).trans ((layout macs).turn_nil s)

/-- Where the two spans of the second tag have different tags, the frame is rejected. -/
theorem packData_fault (s receiver : AuthAes128Codec) (draw : Draw) {data : Bytes}
    (fullLen : Nat) (h : data.length ≤ 8100) (rest : Bytes)
    (htag : ∀ front inner, front.length = 4 → (s.mac macs s.packId (front ++ inner)).take 4 ≠
      (s.mac macs s.packId inner).take 4) :
    ((decoder macs).frames.run (mirror s receiver)
      ((s.packData macs draw data fullLen).1 ++ rest)).fault ≠ none := by
  obtain ⟨n,size,hshape,hlen,hmin,hmax,hsize,hn⟩ := packData_shape macs s draw fullLen h
  have hguard : 4 < ((s.packData macs draw data fullLen).1 ++ rest).length := by
    rw [List.length_append, hlen]
    omega
  have hle : n ≤ ((s.packData macs draw data fullLen).1 ++ rest).length := by
    rw [List.length_append, hlen]
    exact Nat.le_add_right ..
  have hhead : (mirror s receiver).head macs
      (((s.packData macs draw data fullLen).1 ++ rest).take 4) = (.ok n, mirror s receiver) := by
    rw [hshape, List.append_assoc, List.append_assoc]
    exact packData_head s receiver hmin hmax _
  have hfront : (le16 n ++ (s.mac macs s.packId (le16 n)).take 2).length = 4 := by
    rw [List.length_append, List.length_take, mac_length]
    rfl
  have hcut : (le16 n ++ (s.mac macs s.packId (le16 n)).take 2 ++
      (packAuthSha1V4Random draw size ++ data)).length = n - 4 := by
    rw [List.length_append, hfront, List.length_append]
    omega
  have hbody : (mirror s receiver).body macs
      (((s.packData macs draw data fullLen).1 ++ rest).take n) =
      (.error (⟨.invalidData, "ShadowsocksR auth_aes128 response checksum mismatch"⟩, .nothing),
        { mirror s receiver with rawRecv := true }) := by
    rw [List.take_left' hlen, body, hlen, hshape, List.take_left' hcut, List.drop_left' hcut,
      mirror_mac, if_pos (htag _ _ hfront)]
  have hturn : (decoder macs).frames.inspect (mirror s receiver)
      ((s.packData macs draw data fullLen).1 ++ rest) = _ :=
    Layout.turn_body_fault (l := layout macs) ⟨hguard, rfl⟩ hhead hle hbody
  rw [run_fault hturn]
  exact nofun

/-! ## Runs -/

/-- What one `encode` after another puts out once the header is sent. -/
def dataStream (macs : Macs) (s : AuthAes128Codec) (calls : List (Draws × Bytes)) : Bytes :=
  (packAll (fun (t : AuthAes128Codec) (call : Draws × Bytes) =>
    t.encodeData macs call.1 call.2) s calls).1

/-- The data frames decode to the payloads, however they are cut. -/
def RoundTrips (macs : Macs) (s : AuthAes128Codec) (calls : List (Draws × Bytes)) : Prop :=
  ∀ (receiver : AuthAes128Codec) (pieces : List Bytes),
    pieces.flatten = dataStream macs s calls →
      (decoder macs).Decodes (mirror s receiver) [] pieces (calls.flatMap Prod.snd)

theorem encodeData_nil (s : AuthAes128Codec) (d : Draws) : s.encodeData macs d [] = ([], s) := by
  rw [encodeData, chunks, dif_pos (.inl rfl)]
  rfl

theorem dataStream_cons (d : Draws) (payload : Bytes) (calls : List (Draws × Bytes)) :
    dataStream macs s ((d, payload) :: calls) =
      (s.encodeData macs d payload).1 ++ dataStream macs (s.encodeData macs d payload).2 calls :=
  rfl

/-- With a payload among them, the stream begins with a data frame. -/
theorem dataStream_first {calls : List (Draws × Bytes)} (h : ¬ ∀ call ∈ calls, call.2 = []) :
    ∃ draw data fullLen, data.length ≤ 8100 ∧ ∀ macs, ∃ rest,
      dataStream macs s calls = (s.packData macs draw data fullLen).1 ++ rest := by
  induction calls with
  | nil => exact absurd (fun call hcall => absurd hcall List.not_mem_nil) h
  | cons call calls ih =>
    obtain ⟨d,payload⟩ := call
    by_cases hp : payload = []
    · rw [List.forall_mem_cons, not_and] at h
      obtain ⟨draw,data,fullLen,hdata,heq⟩ := ih (h hp)
      refine ⟨draw, data, fullLen, hdata, fun macs => ?_⟩
      rw [dataStream_cons, hp, encodeData_nil]
      exact heq macs
    · refine ⟨d.data 0, payload.take 8100, payload.length, by rw [List.length_take]; omega,
        fun macs => ?_⟩
      rw [dataStream_cons, encodeData, chunks, dif_neg (not_or.mpr ⟨hp, by decide⟩),
        List.mapIdx_cons, packAll, List.append_assoc]
      exact ⟨_, rfl⟩

theorem dataStream_silent (macs : Macs) (s : AuthAes128Codec) {calls : List (Draws × Bytes)} (h : ∀ call ∈ calls, call.2 = []) :
    dataStream macs s calls = [] ∧ calls.flatMap Prod.snd = [] := by
  refine ⟨?_, List.flatMap_eq_nil_iff.mpr h⟩
  induction calls with
  | nil => rfl
  | cons call calls ih =>
    obtain ⟨d,payload⟩ := call
    obtain ⟨hp,hrest⟩ := List.forall_mem_cons.mp h
    obtain rfl : payload = [] := hp
    rw [dataStream_cons, encodeData_nil, List.nil_append]
    exact ih hrest

/-- HMACs that tell only how long the data is. -/
def lengthMacs : Macs where
  hmacMd5 _ data := Vector.replicate 16 (UInt8.ofNat data.length)
  hmacSha1 _ data := Vector.replicate 20 (UInt8.ofNat data.length)

theorem lengthMacs_tag (s : AuthAes128Codec) (front inner : Bytes) (h : front.length = 4) :
    (s.mac lengthMacs s.packId (front ++ inner)).take 4 ≠
      (s.mac lengthMacs s.packId inner).take 4 := by
  have hfirst (data : Bytes) : byteAt ((s.mac lengthMacs s.packId data).take 4) 0 =
      UInt8.ofNat data.length := by
    rw [byteAt_take (by decide), mac]
    cases s.hmacKind <;> rfl
  intro heq
  have hbyte := congrArg (fun bs => (byteAt bs 0).toNat) heq
  simp only [hfirst, UInt8.toNat_ofNat', List.length_append, h] at hbyte
  omega

theorem roundTrips_iff (calls : List (Draws × Bytes)) :
    (∀ macs, RoundTrips macs s calls) ↔ ∀ call ∈ calls, call.2 = [] := by
  constructor
  · intro h
    by_contra hne
    obtain ⟨draw,data,fullLen,hlen,hstream⟩ := dataStream_first (s := s) hne
    obtain ⟨rest,heq⟩ := hstream lengthMacs
    have hall := h lengthMacs s [dataStream lengthMacs s calls] (List.flatten_singleton)
    rw [SsrDecoder.decodes_iff rfl (inspect_nil _), List.flatten_singleton, heq] at hall
    exact packData_fault s s draw fullLen hlen rest (lengthMacs_tag s) hall.1
  · intro hnone macs receiver pieces hpieces
    obtain ⟨hstream,hpayload⟩ := dataStream_silent macs s hnone
    rw [SsrDecoder.decodes_iff rfl (inspect_nil _), hpieces, hstream, hpayload,
      List.append_nil, run_wait (inspect_nil _)]
    exact ⟨rfl, rfl⟩

/-- Whatever the HMACs are, one data frame alone is not read as its payload. -/
theorem packData_not_decoded (s receiver : AuthAes128Codec) (draw : Draw) (data : Bytes)
    (fullLen : Nat) (h : data.length ≤ 8100) :
    ¬ (decoder macs).Decodes (mirror s receiver) []
      [(s.packData macs draw data fullLen).1] data := by
  rw [SsrDecoder.decodes_iff rfl (inspect_nil _), List.flatten_singleton, List.nil_append]
  rcases packData_misread macs s receiver draw fullLen h [] with ⟨s',rest,e,hi⟩ | ⟨s',out,hi,hne⟩
  all_goals rw [List.append_nil] at hi
  · rw [run_fault hi]
    exact fun hnone => absurd hnone.1 nofun
  · rw [run_frame hi, List.drop_length, run_wait (inspect_nil s')]
    rintro ⟨_,rfl⟩
    exact hne (congrArg List.length (List.append_nil out)).symm

end AuthAes128Codec

/-- What one call hands to the packing of a data frame. -/
abbrev DataChunk := { data : Bytes // data.length ≤ 8100 }

/-- The data frames of auth_sha1_v4 and auth_aes128 decode back exactly in the runs that
have none. For auth_aes128 the HMACs are to be arbitrary, since with colliding tags two
misread frames could make up for each other; one frame alone is misread with any. -/
theorem data_frames_decode_iff (crc32 : Crc32) (hmacSha1 : HmacSha1) (v4 : AuthSha1V4Codec)
    (aes : AuthAes128Codec) (calls : List (Draws × Bytes)) :
    (AuthSha1V4Codec.RoundTrips crc32 hmacSha1 v4 calls ↔ ∀ call ∈ calls, call.2 = []) ∧
    ((∀ macs, AuthAes128Codec.RoundTrips macs aes calls) ↔ ∀ call ∈ calls, call.2 = []) ∧
    ∀ (macs : Macs) (receiver : AuthAes128Codec) (draw : Draw) (data : DataChunk) (fullLen : Nat),
      ¬ (AuthAes128Codec.decoder macs).Decodes (AuthAes128Codec.mirror aes receiver) []
        [(aes.packData macs draw data fullLen).1] data := by
  refine ⟨AuthSha1V4Codec.roundTrips_iff calls, AuthAes128Codec.roundTrips_iff calls,
    fun _ receiver draw data fullLen => ?_⟩
  exact AuthAes128Codec.packData_not_decoded aes receiver draw data fullLen data.property

/-- One byte sent over auth_sha1_v4: the decoder answers its frame with a checksum
mismatch. -/
theorem auth_sha1_v4_frame_not_decoded :
    ¬ AuthSha1V4Codec.RoundTrips (fun _ => 0) (fun _ _ => Vector.replicate 20 0)
      ⟨[], [], Vector.replicate 4 0, 0, true, false⟩
      [(⟨zeroDraw, zeroDraw, fun _ => zeroDraw, 0⟩, [65])] := by
  intro h
  have hx := h ⟨[], [], Vector.replicate 4 0, 0, true, false⟩ rfl
    [[0, 10, 0, 0, 1, 65, 67, 0, 69, 0]] (by decide +kernel)
  rw [SsrDecoder.decodes_iff rfl (AuthSha1V4Codec.inspect_nil _)] at hx
  exact absurd hx.1 (by decide +kernel)

end AtlasKernel.Shadowsocks.Ssr
