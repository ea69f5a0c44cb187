import AtlasKernel.Shadowsocks.Ssr.Stream

/-! verify_simple and verify_sha1. HMAC-SHA1 is any function.
Source: `shadowsocks/ssr.rs`, `shadowsocks/ssr/protocol/verify_sha1.rs`. -/
namespace AtlasKernel.Shadowsocks.Ssr
open AtlasKernel.Lib FrameDecoder

abbrev HmacSha1 := Bytes → Bytes → Vector UInt8 20

/-! ## verify_simple -/

structure VerifySimpleCodec where
  rawRecv : Bool
deriving DecidableEq, Repr

namespace VerifySimpleCodec

def new : VerifySimpleCodec := ⟨false⟩

def head (s : VerifySimpleCodec) (front : Bytes) : Except IoError Nat × VerifySimpleCodec :=
  let length := be16At front 0
  if 6 ≤ length ∧ length ≤ 8192 then (.ok length, s)
  else (.error ⟨.invalidData, "ShadowsocksR verify_simple response length is invalid"⟩,
    { s with rawRecv := true })

def body (s : VerifySimpleCodec) (frame : Bytes) :
    Except (IoError × Leftover) Bytes × VerifySimpleCodec :=
  let length := frame.length
  if adler32 (frame.take (length - 4)) ≠ le32At frame (length - 4) then
    (.error (⟨.invalidData, "ShadowsocksR verify_simple response checksum mismatch"⟩,
      .behindFrame), { s with rawRecv := true })
  else (.ok (slice frame 2 (length - 4)), s)

theorem head_ok {s s' : VerifySimpleCodec} {front : Bytes} {n : Nat}
    (h : s.head front = (.ok n, s')) : s' = s ∧ n = be16At front 0 ∧ 6 ≤ n ∧ n ≤ 8192 := by
  rw [head] at h
  by_cases hlen : 6 ≤ be16At front 0 ∧ be16At front 0 ≤ 8192
  · rw [if_pos hlen] at h
    cases h
    exact ⟨rfl, rfl, hlen⟩
  · rw [if_neg hlen] at h
    cases h

theorem body_ok {s s' : VerifySimpleCodec} {frame out : Bytes}
    (h : s.body frame = (.ok out, s')) :
    s' = s ∧ adler32 (frame.take (frame.length - 4)) = le32At frame (frame.length - 4) ∧
      out = slice frame 2 (frame.length - 4) := by
  rw [body] at h
  by_cases hsum : adler32 (frame.take (frame.length - 4)) ≠ le32At frame (frame.length - 4)
  · rw [if_pos hsum] at h
    cases h
  · rw [if_neg hsum] at h
    cases h
    exact ⟨rfl, not_ne_iff.mp hsum, rfl⟩

def layout : Layout VerifySimpleCodec UInt8 UInt8 IoError where
  guard _ := 2
  ready _ := true
  head := head
  body := body
  head_pos h := Nat.lt_of_lt_of_le (by decide) (head_ok h).2.2.1
  head_again := by
    intro s front n s' _ h
    obtain ⟨rfl,_⟩ := head_ok h
    exact ⟨rfl, rfl, h⟩

def decoder : SsrDecoder VerifySimpleCodec :=
  .ofLayout layout rawRecv (fun h => by rw [(head_ok h).1]) (fun h => by rw [(body_ok h).1])

/-- Length in range and right, checksum right. -/
def Checked (s : VerifySimpleCodec) (frame out : Bytes) (s' : VerifySimpleCodec) : Prop :=
  frame.length = be16At frame 0 ∧ 6 ≤ frame.length ∧ frame.length ≤ 8192 ∧
  adler32 (frame.take (frame.length - 4)) = le32At frame (frame.length - 4) ∧
  out = slice frame 2 (frame.length - 4) ∧ s' = s

theorem checks : decoder.frames.Checks id Checked := by
  refine Layout.checks (fun h => congrArg id (head_ok h).1) ?_
  intro s buf n s' out s'' hguard hle hh hb
  obtain ⟨rfl,hn,hmin,hmax⟩ := head_ok hh
  obtain ⟨rfl,hsum,hout⟩ := body_ok hb
  have hlen : (buf.take n).length = n := List.length_take_of_le hle
  have hhead : be16At (buf.take 2) 0 = be16At buf 0 := be16At_take (by decide)
  refine ⟨?_, by rwa [hlen], by rwa [hlen], hsum, hout, rfl⟩
  rw [hlen, be16At_take (by omega), ← hhead]
  exact hn

def packData (payload : Bytes) : Bytes :=
  let front := be16 (payload.length + 6) ++ payload
  front ++ le32 (adler32 front)

def encode (payload : Bytes) : Bytes := (chunks 4096 payload).flatMap packData

theorem inspect_nil (s : VerifySimpleCodec) : decoder.frames.inspect s [] = .wait s :=
  layout.turn_nil s

/-- A chunk is taken out as soon as it is whole. -/
theorem packData_inspect (s : VerifySimpleCodec) {chunk : Bytes} (hpos : 0 < chunk.length)
    (hmax : chunk.length ≤ 4096) (rest : Bytes) :
    decoder.frames.inspect s (packData chunk ++ rest) = .frame s (packData chunk).length chunk := by
  have hlen : (packData chunk).length = chunk.length + 6 := by
    simp [packData]
    omega
  have hcut : (packData chunk).length - 4 = (be16 (chunk.length + 6) ++ chunk).length := by
    simp [hlen]
    omega
  have hguard : 2 < (packData chunk ++ rest).length := by
    rw [List.length_append, hlen]
    omega
  have hhead : s.head ((packData chunk ++ rest).take 2) = (.ok (packData chunk).length, s) := by
    have hfield : be16At ((packData chunk ++ rest).take 2) 0 = (packData chunk).length := by
      rw [be16At_take (Nat.le_refl 2), packData, List.append_assoc, List.append_assoc, be16At_be16,
        Nat.mod_eq_of_lt (by omega), ← packData, hlen]
    rw [head, hfield, if_pos ⟨by omega,by omega⟩]
  have hsum : adler32 ((packData chunk).take ((packData chunk).length - 4)) =
      le32At (packData chunk) ((packData chunk).length - 4) := by
    rw [hcut, packData, List.take_left]
    exact (le32At_last _ (adler32_lt _)).symm
  have hdata : slice (packData chunk) 2 ((packData chunk).length - 4) = chunk := by
    rw [hcut, packData, List.length_append, be16_length]
    exact slice_middle (be16 (chunk.length + 6)) chunk _
  have hbody : s.body ((packData chunk ++ rest).take (packData chunk).length) = (.ok chunk, s) := by
    rw [List.take_left, body, if_neg (not_not.mpr hsum), hdata]
  refine (SsrDecoder.ofLayout_inspect s _).trans ?_
  refine Layout.turn_body ⟨hguard,rfl⟩ hhead ?_ hbody
  rw [List.length_append]
  exact Nat.le_add_right _ _

theorem packAll_packData (items : List Bytes) :
    packAll (fun (_ : Unit) item => (packData item, ())) () items = (items.flatMap packData, ()) := by
  induction items with
  | nil => rfl
  | cons item items ih => rw [packAll, ih, List.flatMap_cons]

/-- However the encoded payloads are cut, they are decoded as they were. -/
theorem round_trip {payloads pieces : List Bytes} (h : pieces.flatten = payloads.flatMap encode) :
    decoder.Decodes .new [] pieces payloads.flatten := by
  have hitems : payloads.flatMap encode = (payloads.flatMap (chunks 4096)).flatMap packData := by
    rw [List.flatMap_assoc]
    rfl
  have hrun := @run_packed _ _ _ _ _ _ decoder.frames (fun (_ : Unit) item => (packData item, ()))
    (fun _ item => item) (fun _ s => s = new) (fun _ s _ => inspect_nil s)
    (payloads.flatMap (chunks 4096)) (fun _ _ _ => by simp [packData, be16])
    (by
      rintro - s chunk hchunk rest rfl
      obtain ⟨hpos,hmax⟩ := mem_chunksAll hchunk
      exact .inl ⟨new,packData_inspect new hpos hmax rest,rfl⟩)
    () new rfl
  rw [packAll_packData, readAll_self, chunksAll_flatten (by decide)] at hrun
  apply (SsrDecoder.decodes_iff (s := new) rfl (inspect_nil new) pieces _).mpr
  rw [List.nil_append, h, hitems]
  exact hrun

end VerifySimpleCodec

/-! ## verify_sha1 -/

structure VerifySha1Codec where
  iv : Bytes
  recvChunkId : UInt32
  rawRecv : Bool
deriving DecidableEq, Repr

namespace VerifySha1Codec
variable (hmacSha1 : HmacSha1)

def new (iv : Bytes) : VerifySha1Codec := ⟨iv, 0, false⟩

def head (s : VerifySha1Codec) (front : Bytes) : Except IoError Nat × VerifySha1Codec :=
  let length := be16At front 0
  if 8192 < length then
    (.error ⟨.invalidData, "ShadowsocksR verify_sha1 response length is invalid"⟩,
      { s with rawRecv := true })
  else (.ok (2 + 10 + length), s)

/-- The chunk id is used up whether or not the tag is right. -/
def body (s : VerifySha1Codec) (frame : Bytes) :
    Except (IoError × Leftover) Bytes × VerifySha1Codec :=
  let chunkId := s.recvChunkId
  let s := { s with recvChunkId := s.recvChunkId + 1 }
  let expected := hmacSha1 (s.iv ++ be32 chunkId.toNat) (frame.drop 12)
  if expected.toList.take 10 ≠ slice frame 2 12 then
    (.error (⟨.invalidData, "ShadowsocksR verify_sha1 response HMAC mismatch"⟩, .behindFrame),
      { s with rawRecv := true })
  else (.ok (frame.drop 12), s)

variable {hmacSha1}

theorem head_ok {s s' : VerifySha1Codec} {front : Bytes} {n : Nat}
    (h : s.head front = (.ok n, s')) :
    s' = s ∧ n = 12 + be16At front 0 ∧ be16At front 0 ≤ 8192 := by
  rw [head] at h
  by_cases hlen : 8192 < be16At front 0
  · rw [if_pos hlen] at h
    cases h
  · rw [if_neg hlen] at h
    cases h
    exact ⟨rfl, rfl, Nat.not_lt.mp hlen⟩

theorem body_ok {s s' : VerifySha1Codec} {frame out : Bytes}
    (h : s.body hmacSha1 frame = (.ok out, s')) :
    s' = { s with recvChunkId := s.recvChunkId + 1 } ∧
      (hmacSha1 (s.iv ++ be32 s.recvChunkId.toNat) (frame.drop 12)).toList.take 10 =
        slice frame 2 12 ∧ out = frame.drop 12 := by
  rw [body] at h
  by_cases htag : (hmacSha1 (s.iv ++ be32 s.recvChunkId.toNat) (frame.drop 12)).toList.take 10 ≠
      slice frame 2 12
  · rw [if_pos htag] at h
    cases h
  · rw [if_neg htag] at h
    cases h
    exact ⟨rfl, not_ne_iff.mp htag, rfl⟩

def layout (hmacSha1 : HmacSha1) : Layout VerifySha1Codec UInt8 UInt8 IoError where
  guard _ := 12
  ready _ := true
  head := head
  body := body hmacSha1
  head_pos h := by
    rw [(head_ok h).2.1]
    omega
  head_again := by
    intro s front n s' _ h
    obtain ⟨rfl,_⟩ := head_ok h
    exact ⟨rfl, rfl, h⟩

def decoder (hmacSha1 : HmacSha1) : SsrDecoder VerifySha1Codec :=
  .ofLayout (layout hmacSha1) rawRecv (fun h => by rw [(head_ok h).1])
    (fun h => by rw [(body_ok h).1])

/-- Length in range and right, and the tag that of this chunk under the next id. -/
def Checked (hmacSha1 : HmacSha1) (s : VerifySha1Codec) (frame out : Bytes)
    (s' : VerifySha1Codec) : Prop :=
  frame.length = 12 + be16At frame 0 ∧ be16At frame 0 ≤ 8192 ∧
  (hmacSha1 (s.iv ++ be32 s.recvChunkId.toNat) (frame.drop 12)).toList.take 10 =
    slice frame 2 12 ∧
  out = frame.drop 12 ∧ s' = { s with recvChunkId := s.recvChunkId + 1 }

theorem checks : (decoder hmacSha1).frames.Checks id (Checked hmacSha1) := by
  refine Layout.checks (fun h => congrArg id (head_ok h).1) ?_
  intro s buf n s' out s'' hguard hle hh hb
  obtain ⟨rfl,hn,hmax⟩ := head_ok hh
  obtain ⟨hs,htag,hout⟩ := body_ok hb
  have hfront : be16At (buf.take 12) 0 = be16At buf 0 := be16At_take (by decide)
  have hframe : be16At (buf.take n) 0 = be16At buf 0 := be16At_take (by omega)
  change n = 12 + be16At (buf.take 12) 0 at hn
  change be16At (buf.take 12) 0 ≤ 8192 at hmax
  refine ⟨?_, by omega, htag, hout, hs⟩
  rw [List.length_take_of_le hle, hframe, ← hfront]
  exact hn

/-! ### The sender -/

/-- What `encode` uses of the codec. -/
structure Sender where
  key : Bytes
  iv : Bytes
  sentHeader : Bool
  sendChunkId : UInt32
deriving DecidableEq, Repr

namespace Sender
variable (hmacSha1 : HmacSha1)

def headLen (payload : Bytes) : Nat := min (getSsrHeadSize payload 30) payload.length

/-- The front of the first payload, marked, with its tag. -/
def header (s : Sender) (payload : Bytes) : Bytes :=
  if s.sentHeader = true then []
  else
    let header := (payload.take (headLen payload)).modifyHead (· ||| 0x10)
    header ++ (hmacSha1 (s.iv ++ s.key) header).toList

/-- What goes into chunks. -/
def remaining (s : Sender) (payload : Bytes) : Bytes :=
  if s.sentHeader = true then payload else payload.drop (headLen payload)

def packChunk (s : Sender) (payload : Bytes) : Bytes × Sender :=
  let tag := hmacSha1 (s.iv ++ be32 s.sendChunkId.toNat) payload
  (be16 payload.length ++ tag.toList.take 10 ++ payload, { s with sendChunkId := s.sendChunkId + 1 })

def encode (s : Sender) (payload : Bytes) : Bytes × Sender :=
  let r := packAll (packChunk hmacSha1) { s with sentHeader := true } (chunks 4096 (s.remaining payload))
  (s.header hmacSha1 payload ++ r.1, r.2)

/-- The header of the first call, and the payloads without what stands in it. -/
def firstHeader (s : Sender) : List Bytes → Bytes
  | [] => []
  | payload :: _ => s.header hmacSha1 payload

def chunked (s : Sender) : List Bytes → Bytes
  | [] => []
  | payload :: payloads => s.remaining payload ++ payloads.flatten

/-- The receiver with the same IV and the chunk id that comes next. -/
def receiver (s : Sender) : VerifySha1Codec := ⟨s.iv, s.sendChunkId, false⟩

variable {hmacSha1}

theorem inspect_nil (s : VerifySha1Codec) : (decoder hmacSha1).frames.inspect s [] = .wait s :=
  (layout hmacSha1).turn_nil s

theorem packChunk_inspect (s : Sender) {chunk : Bytes} (hpos : 0 < chunk.length)
    (hmax : chunk.length ≤ 4096) (rest : Bytes) :
    (decoder hmacSha1).frames.inspect s.receiver ((s.packChunk hmacSha1 chunk).1 ++ rest) =
      .frame (s.packChunk hmacSha1 chunk).2.receiver (s.packChunk hmacSha1 chunk).1.length chunk := by
  have htag : ((hmacSha1 (s.iv ++ be32 s.sendChunkId.toNat) chunk).toList.take 10).length = 10 := by
    simp
  generalize hframe : (s.packChunk hmacSha1 chunk).1 = frame
  rw [packChunk] at hframe
  dsimp only at hframe
  generalize htags : (hmacSha1 (s.iv ++ be32 s.sendChunkId.toNat) chunk).toList.take 10 = tag at *
  have hlen : frame.length = chunk.length + 12 := by
    rw [← hframe]
    simp [htag]
    omega
  have hguard : 12 < (frame ++ rest).length := by
    rw [List.length_append, hlen]
    omega
  have hhead : s.receiver.head ((frame ++ rest).take 12) = (.ok frame.length, s.receiver) := by
    have hfield : be16At ((frame ++ rest).take 12) 0 = chunk.length := by
      rw [be16At_take (by decide), ← hframe, List.append_assoc, List.append_assoc, be16At_be16,
        Nat.mod_eq_of_lt (by omega)]
    rw [head, hfield, if_neg (by omega), hlen]
    simp only [Prod.mk.injEq, Except.ok.injEq, and_true]
    omega
  have hdata : frame.drop 12 = chunk := by
    have hfront : (be16 chunk.length ++ tag).length = 12 := by simp [htag]
    rw [← hframe, ← hfront, List.drop_left]
  have hslice : slice frame 2 12 = tag := by
    have hmiddle := slice_middle (be16 chunk.length) tag chunk
    rw [be16_length, htag, ← List.append_assoc, hframe] at hmiddle
    exact hmiddle
  have hbody : s.receiver.body hmacSha1 ((frame ++ rest).take frame.length) =
      (.ok chunk, (s.packChunk hmacSha1 chunk).2.receiver) := by
    rw [List.take_left, body, hdata, hslice, ← htags]
    simp [receiver, packChunk]
  refine (SsrDecoder.ofLayout_inspect s.receiver _).trans ?_
  refine Layout.turn_body ⟨hguard,rfl⟩ hhead ?_ hbody
  rw [List.length_append]
  exact Nat.le_add_right _ _

theorem packAll_sent {s : Sender} (h : s.sentHeader = true) (items : List Bytes) :
    (packAll (packChunk hmacSha1) s items).2.sentHeader = true := by
  induction items generalizing s with
  | nil => exact h
  | cons item items ih => exact ih h

/-- Behind the header all calls together pack the chunks of all payloads. -/
theorem encodeAll_sent {s : Sender} (h : s.sentHeader = true) (payloads : List Bytes) :
    packAll (encode hmacSha1) s payloads =
      packAll (packChunk hmacSha1) s (payloads.flatMap (chunks 4096)) := by
  induction payloads generalizing s with
  | nil => rfl
  | cons payload payloads ih =>
    have hone : s.encode hmacSha1 payload = packAll (packChunk hmacSha1) s (chunks 4096 payload) := by
      have hsame : { s with sentHeader := true } = s := by
        cases s
        cases h
        rfl
      rw [encode, header, remaining, if_pos h, if_pos h, hsame]
      rfl
    rw [packAll, hone, ih (packAll_sent h _), List.flatMap_cons, packAll_append]

/-- The chunks of a run of calls, the first of which may have a header to send. -/
theorem encodeAll_chunks (s : Sender) (payloads : List Bytes) :
    ∃ items : List Bytes, (∀ item ∈ items, 0 < item.length ∧ item.length ≤ 4096) ∧
      items.flatten = s.chunked payloads ∧
      (packAll (encode hmacSha1) s payloads).1 = s.firstHeader hmacSha1 payloads ++
        (packAll (packChunk hmacSha1) { s with sentHeader := true } items).1 := by
  cases payloads with
  | nil => exact ⟨[],fun item hitem => absurd hitem List.not_mem_nil,rfl,rfl⟩
  | cons payload payloads =>
    refine ⟨chunks 4096 (s.remaining payload) ++ payloads.flatMap (chunks 4096),?_,?_,?_⟩
    · intro item hitem
      rcases List.mem_append.mp hitem with hitem | hitem
      · exact chunks_length hitem
      · exact mem_chunksAll hitem
    · rw [List.flatten_append, chunks_flatten (by decide), chunksAll_flatten (by decide)]
      rfl
    · have hsent : (s.encode hmacSha1 payload).2.sentHeader = true := packAll_sent rfl _
      rw [packAll, encodeAll_sent hsent, packAll_append]
      simp [encode, firstHeader]

/-- However what follows the header is cut, it is decoded as the payloads that went into
chunks. -/
theorem round_trip (s : Sender) {payloads pieces : List Bytes}
    (h : s.firstHeader hmacSha1 payloads ++ pieces.flatten = (packAll (encode hmacSha1) s payloads).1) :
    (decoder hmacSha1).Decodes s.receiver [] pieces (s.chunked payloads) := by
  obtain ⟨items,hitems,hchunked,hall⟩ := encodeAll_chunks s payloads
  rw [hall] at h
  have hpieces := List.append_cancel_left h
  have hrun := @run_packed _ _ _ _ _ _ (decoder hmacSha1).frames (packChunk hmacSha1)
    (fun _ item => item) (fun t r => r = t.receiver) (fun _ r _ => inspect_nil r) items
    (fun _ _ _ => by simp [packChunk, be16])
    (by
      rintro t - item hitem rest rfl
      obtain ⟨hpos,hmax⟩ := hitems item hitem
      exact .inl ⟨_,packChunk_inspect t hpos hmax rest,rfl⟩)
    { s with sentHeader := true } s.receiver rfl
  rw [readAll_self, hchunked, ← hpieces] at hrun
  apply (SsrDecoder.decodes_iff (s := s.receiver) rfl (inspect_nil _) pieces _).mpr
  rw [List.nil_append]
  exact hrun

end Sender
end VerifySha1Codec

/-- Both kinds of chunk streams are decoded as what went into chunks, for every run of
calls and every cut, if the counters agree at the start. -/
theorem verify_chunks_round_trip (hmacSha1 : HmacSha1) (payloads : List Bytes) :
    (∀ pieces : List Bytes, pieces.flatten = payloads.flatMap VerifySimpleCodec.encode →
      VerifySimpleCodec.decoder.Decodes .new [] pieces payloads.flatten) ∧
    ∀ (s : VerifySha1Codec.Sender) (pieces : List Bytes),
      s.firstHeader hmacSha1 payloads ++ pieces.flatten =
        (packAll (VerifySha1Codec.Sender.encode hmacSha1) s payloads).1 →
      (VerifySha1Codec.decoder hmacSha1).Decodes s.receiver [] pieces (s.chunked payloads) :=
  ⟨fun _ h => VerifySimpleCodec.round_trip h,fun s _ h => s.round_trip h⟩

end AtlasKernel.Shadowsocks.Ssr
