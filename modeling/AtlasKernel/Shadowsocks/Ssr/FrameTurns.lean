import AtlasKernel.Lib.Checked
import AtlasKernel.Lib.CheckedFrames
import AtlasKernel.Shadowsocks.Ssr.AuthAes128

/-! One turn of the decode loops of the SSR codecs with every index and every subtraction
checked, and that none of them is out of bounds. Source: `shadowsocks/ssr.rs`,
`shadowsocks/ssr/protocol/verify_sha1.rs`. -/
namespace AtlasKernel.Shadowsocks.Ssr
open AtlasKernel.Lib FrameDecoder

abbrev SsrVerdict (σ : Type*) := Verdict σ UInt8 UInt8 IoError

def invalidData {σ : Type*} (s : σ) (rest : Bytes) (message : String) : SsrVerdict σ :=
  .fault s rest ⟨.invalidData, message⟩

/-! ## Parts of a frame -/

/-- `u32::from_le_bytes` of the last four bytes of a frame. -/
def lastWord? (frame : Bytes) (length : Nat) : Option Nat := do
  let a ← byteAt? frame (← sub? length 4)
  let b ← byteAt? frame (← sub? length 3)
  let c ← byteAt? frame (← sub? length 2)
  let d ← byteAt? frame (← sub? length 1)
  return ofBe16 b a + 65536 * ofBe16 d c

theorem lastWord?_eq {frame : Bytes} {length : Nat} (h : 4 ≤ length) (hle : length ≤ frame.length) :
    lastWord? frame length = some (le32At frame (length - 4)) := by
  have hsecond : length - 4 + 1 = length - 3 := by omega
  have hthird : length - 4 + 2 = length - 2 := by omega
  have hfourth : length - 2 + 1 = length - 1 := by omega
  simp only [lastWord?, sub?_eq h, sub?_eq (show 3 ≤ length by omega),
    sub?_eq (show 2 ≤ length by omega), sub?_eq (show 1 ≤ length by omega), Option.bind_eq_bind,
    Option.bind_some, byteAt?_eq (show length - 4 < frame.length by omega),
    byteAt?_eq (show length - 3 < frame.length by omega),
    byteAt?_eq (show length - 2 < frame.length by omega),
    byteAt?_eq (show length - 1 < frame.length by omega)]
  rw [le32At, le16At, le16At, hsecond, hthird, hfourth]
  rfl

/-- Where the payload starts behind the random bytes. -/
def dataPos? (word? : Bytes → Nat → Option Nat) (frame : Bytes) : Option Nat := do
  let pos ← byteAt? frame 4
  if pos < 255 then return pos.toNat + 5
  else return (← word? frame 5) + 7

theorem dataPos?_eq {word? : Bytes → Nat → Option Nat} {word : Bytes → Nat → Nat} {frame : Bytes}
    (hword : word? frame 5 = some (word frame 5)) (h : 7 ≤ frame.length) :
    dataPos? word? frame = some (dataPos word frame) := by
  simp only [dataPos?, byteAt?_eq (show 4 < frame.length by omega), hword, Option.bind_eq_bind,
    Option.bind_some, dataPos]
  split <;> rfl

/-- The key `with_appended_bytes` hands on: it is put together on the stack if it fits there. -/
def withAppendedBytes? (front suffix : Bytes) : Option Bytes :=
  if front.length + suffix.length ≤ 128 then do
    let stack ← overwrite? (List.replicate 128 0) 0 front
    let stack ← overwrite? stack front.length suffix
    slice? stack 0 (front.length + suffix.length)
  else some (front ++ suffix)

theorem withAppendedBytes?_eq (front suffix : Bytes) :
    withAppendedBytes? front suffix = some (front ++ suffix) := by
  rw [withAppendedBytes?]
  split
  case isTrue hfits =>
    have hzeros : (List.replicate 128 (0 : UInt8)).length = 128 := List.length_replicate
    have hfront : 0 + front.length ≤ (List.replicate 128 (0 : UInt8)).length := by omega
    have hstack : (overwrite (List.replicate 128 0) 0 front).length = 128 := by
      rw [overwrite_length hfront, hzeros]
    have hsuffix : front.length + suffix.length ≤
        (overwrite (List.replicate 128 0) 0 front).length := by omega
    have htake : (overwrite (List.replicate 128 0) 0 front).take front.length = front := by
      rw [overwrite, List.take_zero, List.nil_append, List.take_left]
    simp only [overwrite?_eq hfront, Option.bind_eq_bind, Option.bind_some, overwrite?_eq hsuffix]
    rw [slice?_zero (by rw [overwrite_length hsuffix]; exact hsuffix), overwrite, htake,
      ← List.length_append, List.take_left]
  case isFalse => rfl

/-! ## verify_simple -/

namespace VerifySimpleCodec

def turn? (s : VerifySimpleCodec) (recvBuffer : Bytes) : Option (SsrVerdict VerifySimpleCodec) :=
  if 2 < recvBuffer.length then do
    let length ← be16At? recvBuffer 0
    if ¬ (6 ≤ length ∧ length ≤ 8192) then
      return invalidData { s with rawRecv := true } []
        "ShadowsocksR verify_simple response length is invalid"
    else if recvBuffer.length < length then return .wait s
    else
      let frame ← slice? recvBuffer 0 length
      let expected ← lastWord? frame length
      let summed ← slice? frame 0 (← sub? length 4)
      if adler32 summed ≠ expected then
        return invalidData { s with rawRecv := true } (recvBuffer.drop length)
          "ShadowsocksR verify_simple response checksum mismatch"
      else return .frame s length (← slice? frame 2 (← sub? length 4))
  else return .wait s

theorem turn?_eq (s : VerifySimpleCodec) (buf : Bytes) :
    turn? s buf = some (decoder.frames.inspect s buf) := by
  change turn? s buf = some (layout.turn s buf)
  by_cases hguard : 2 < buf.length
  · have hready : layout.guard s < buf.length ∧ layout.ready s = true := ⟨hguard,rfl⟩
    have hlength : be16At (buf.take 2) 0 = be16At buf 0 := be16At_take (by decide)
    have hhead : layout.head s (buf.take (layout.guard s)) = s.head (buf.take 2) := rfl
    rw [turn?, if_pos hguard, be16At?_eq (by omega)]
    simp only [Option.bind_eq_bind, Option.bind_some]
    rw [head, hlength] at hhead
    generalize be16At buf 0 = length at hhead ⊢
    by_cases hrange : 6 ≤ length ∧ length ≤ 8192
    · simp only [if_pos hrange] at hhead
      rw [if_neg (not_not.mpr hrange)]
      refine Layout.turn_known hready hhead fun hwhole => ?_
      have hframe : (buf.take length).length = length := List.length_take_of_le hwhole
      rw [slice?_zero hwhole]
      have hbody : layout.body = body := rfl
      rw [hbody]
      generalize buf.take length = frame at hframe ⊢
      subst hframe
      simp only [Option.bind_some, lastWord?_eq (show 4 ≤ frame.length by omega) (Nat.le_refl _),
        sub?_eq (show 4 ≤ frame.length by omega), slice?_zero (Nat.sub_le frame.length 4),
        slice?_eq (show 2 ≤ frame.length - 4 by omega) (Nat.sub_le frame.length 4), body]
      split <;> rfl
    · simp only [if_neg hrange] at hhead
      rw [if_pos hrange, Layout.turn_head_fault hready hhead]
      rfl
  · rw [turn?, if_neg hguard, Layout.turn_short fun h => hguard h.1]
    rfl

theorem inBounds : InBounds turn? decoder.frames 6 where
  turn := turn?_eq
  long := Layout.long fun h => (head_ok h).2.2.1

end VerifySimpleCodec

/-! ## verify_sha1 -/

namespace VerifySha1Codec

def turn? (hmacSha1 : HmacSha1) (s : VerifySha1Codec) (recvBuffer : Bytes) :
    Option (SsrVerdict VerifySha1Codec) :=
  if 12 < recvBuffer.length then do
    let length ← be16At? recvBuffer 0
    if 8192 < length then
      return invalidData { s with rawRecv := true } []
        "ShadowsocksR verify_sha1 response length is invalid"
    else
      let frameLen := 2 + 10 + length
      if recvBuffer.length < frameLen then return .wait s
      else
        let frame ← slice? recvBuffer 0 frameLen
        let chunkId := s.recvChunkId
        let s := { s with recvChunkId := s.recvChunkId + 1 }
        let macKey ← withAppendedBytes? s.iv (be32 chunkId.toNat)
        let expected := hmacSha1 macKey (← sliceFrom? frame 12)
        if (← slice? expected.toList 0 10) ≠ (← slice? frame 2 12) then
          return invalidData { s with rawRecv := true } (recvBuffer.drop frameLen)
            "ShadowsocksR verify_sha1 response HMAC mismatch"
        else return .frame s frameLen (← sliceFrom? frame 12)
  else return .wait s

theorem turn?_eq (hmacSha1 : HmacSha1) (s : VerifySha1Codec) (buf : Bytes) :
    turn? hmacSha1 s buf = some ((decoder hmacSha1).frames.inspect s buf) := by
  change turn? hmacSha1 s buf = some ((layout hmacSha1).turn s buf)
  by_cases hguard : 12 < buf.length
  · have hready : (layout hmacSha1).guard s < buf.length ∧ (layout hmacSha1).ready s = true :=
      ⟨hguard,rfl⟩
    have hlength : be16At (buf.take 12) 0 = be16At buf 0 := be16At_take (by decide)
    have hhead : (layout hmacSha1).head s (buf.take ((layout hmacSha1).guard s)) =
        s.head (buf.take 12) := rfl
    rw [turn?, if_pos hguard, be16At?_eq (by omega)]
    simp only [Option.bind_eq_bind, Option.bind_some]
    rw [head, hlength] at hhead
    generalize be16At buf 0 = length at hhead ⊢
    by_cases hrange : 8192 < length
    · simp only [if_pos hrange] at hhead
      rw [if_pos hrange, Layout.turn_head_fault hready hhead]
      rfl
    · simp only [if_neg hrange] at hhead
      rw [if_neg hrange]
      refine Layout.turn_known hready hhead fun hwhole => ?_
      have hframe : (buf.take (2 + 10 + length)).length = 2 + 10 + length :=
        List.length_take_of_le hwhole
      have hbody : (layout hmacSha1).body = body hmacSha1 := rfl
      have htag (expected : Vector UInt8 20) :
          slice? expected.toList 0 10 = some (expected.toList.take 10) :=
        slice?_zero (by rw [Vector.length_toList]; decide)
      rw [slice?_zero hwhole, hbody]
      generalize buf.take (2 + 10 + length) = frame at hframe ⊢
      simp only [Option.bind_some, withAppendedBytes?_eq,
        sliceFrom?_eq (show 12 ≤ frame.length by omega), htag,
        slice?_eq (show 2 ≤ 12 by decide) (show 12 ≤ frame.length by omega), body]
      split <;> rfl
  · rw [turn?, if_neg hguard, Layout.turn_short fun h => hguard h.1]
    rfl

theorem inBounds (hmacSha1 : HmacSha1) : InBounds (turn? hmacSha1) (decoder hmacSha1).frames 12 where
  turn := turn?_eq hmacSha1
  long := Layout.long fun h => by
    rw [(head_ok h).2.1]
    exact Nat.le_add_right 12 _

end VerifySha1Codec

/-! ## auth_simple, auth_sha1 and auth_sha1_v2 -/

namespace EarlyAuthCodec

def turn? (s : EarlyAuthCodec) (recvBuffer : Bytes) : Option (SsrVerdict EarlyAuthCodec) :=
  if 4 < recvBuffer.length then do
    let length ← be16At? recvBuffer 0
    if ¬ (7 ≤ length ∧ length < 8192) then
      return invalidData { s with rawRecv := true } []
        "ShadowsocksR auth response length is invalid"
    else if recvBuffer.length < length then return .wait s
    else
      let frame ← slice? recvBuffer 0 length
      let expected ← lastWord? frame length
      let summed ← slice? frame 0 (← sub? length 4)
      if adler32 summed ≠ expected then
        return invalidData { s with rawRecv := true } (recvBuffer.drop length)
          "ShadowsocksR auth response checksum mismatch"
      else
        let pos ← dataPos? be16At? frame
        if (← sub? length 4) < pos then
          return invalidData s (recvBuffer.drop length)
            "ShadowsocksR auth response padding is invalid"
        else return .frame s length (← slice? frame pos (← sub? length 4))
  else return .wait s

theorem turn?_eq (s : EarlyAuthCodec) (buf : Bytes) :
    turn? s buf = some (decoder.frames.inspect s buf) := by
  change turn? s buf = some (layout.turn s buf)
  by_cases hguard : 4 < buf.length
  · have hready : layout.guard s < buf.length ∧ layout.ready s = true := ⟨hguard,rfl⟩
    have hlength : be16At (buf.take 4) 0 = be16At buf 0 := be16At_take (by decide)
    have hhead : layout.head s (buf.take (layout.guard s)) = s.head (buf.take 4) := rfl
    rw [turn?, if_pos hguard, be16At?_eq (by omega)]
    simp only [Option.bind_eq_bind, Option.bind_some]
    rw [head, hlength] at hhead
    generalize be16At buf 0 = length at hhead ⊢
    by_cases hrange : 7 ≤ length ∧ length < 8192
    · simp only [if_pos hrange] at hhead
      rw [if_neg (not_not.mpr hrange)]
      refine Layout.turn_known hready hhead fun hwhole => ?_
      have hframe : (buf.take length).length = length := List.length_take_of_le hwhole
      have hbody : layout.body = body := rfl
      rw [slice?_zero hwhole, hbody]
      generalize buf.take length = frame at hframe ⊢
      subst hframe
      have hlong : 4 ≤ frame.length := by omega
      have hpos : dataPos? be16At? frame = some (dataPos be16At frame) :=
        dataPos?_eq (be16At?_eq (by omega)) hrange.1
      simp only [Option.bind_some, lastWord?_eq hlong (Nat.le_refl _), sub?_eq hlong,
        slice?_zero (Nat.sub_le frame.length 4), hpos, body]
      split
      · rfl
      · split
        · rfl
        · rw [slice?_eq (by omega) (Nat.sub_le _ 4)]
          rfl
    · simp only [if_neg hrange] at hhead
      rw [if_pos hrange, Layout.turn_head_fault hready hhead]
      rfl
  · rw [turn?, if_neg hguard, Layout.turn_short fun h => hguard h.1]
    rfl

theorem inBounds : InBounds turn? decoder.frames 7 where
  turn := turn?_eq
  long := Layout.long fun h => (head_ok h).2.2.1

end EarlyAuthCodec

/-! ## auth_sha1_v4 -/

namespace AuthSha1V4Codec

def turn? (crc32 : Crc32) (s : AuthSha1V4Codec) (recvBuffer : Bytes) :
    Option (SsrVerdict AuthSha1V4Codec) :=
  if 4 < recvBuffer.length then do
    let checksum := (crc32 (← slice? recvBuffer 0 2)).toNat % 65536
    let expected ← le16At? recvBuffer 2
    if checksum ≠ expected then
      return invalidData s [] "ShadowsocksR auth_sha1_v4 response CRC mismatch"
    else
      let length ← be16At? recvBuffer 0
      if ¬ (7 ≤ length ∧ length < 8192) then
        return invalidData { s with rawRecv := true } []
          "ShadowsocksR auth_sha1_v4 response length is invalid"
      else if recvBuffer.length < length then return .wait s
      else
        let frame ← slice? recvBuffer 0 length
        let actualAdler := adler32 (← slice? frame 0 (← sub? length 4))
        let expectedAdler ← lastWord? frame length
        if actualAdler ≠ expectedAdler then
          return invalidData { s with rawRecv := true } []
            "ShadowsocksR auth_sha1_v4 response checksum mismatch"
        else
          let pos ← dataPos? be16At? frame
          if (← sub? length 4) < pos then
            return invalidData s recvBuffer "ShadowsocksR auth_sha1_v4 response padding is invalid"
          else return .frame s length (← slice? frame pos (← sub? length 4))
  else return .wait s

theorem turn?_eq (crc32 : Crc32) (s : AuthSha1V4Codec) (buf : Bytes) :
    turn? crc32 s buf = some ((decoder crc32).frames.inspect s buf) := by
  change turn? crc32 s buf = some ((layout crc32).turn s buf)
  by_cases hguard : 4 < buf.length
  · have hready : (layout crc32).guard s < buf.length ∧ (layout crc32).ready s = true := ⟨hguard,rfl⟩
    have hlength : be16At (buf.take 4) 0 = be16At buf 0 := be16At_take (by decide)
    have hexpected : le16At (buf.take 4) 2 = le16At buf 2 := le16At_take (by decide)
    have htwo : (buf.take 4).take 2 = buf.take 2 := by rw [List.take_take, Nat.min_eq_left (by decide)]
    have hhead : (layout crc32).head s (buf.take ((layout crc32).guard s)) =
        s.head crc32 (buf.take 4) := rfl
    rw [turn?, if_pos hguard, slice?_zero (by omega), le16At?_eq (by omega), be16At?_eq (by omega)]
    simp only [Option.bind_eq_bind, Option.bind_some]
    rw [head, hlength, hexpected, htwo] at hhead
    by_cases hcrc : (crc32 (buf.take 2)).toNat % 65536 ≠ le16At buf 2
    · simp only [if_pos hcrc] at hhead
      rw [if_pos hcrc, Layout.turn_head_fault hready hhead]
      rfl
    · simp only [if_neg hcrc] at hhead
      rw [if_neg hcrc]
      generalize be16At buf 0 = length at hhead ⊢
      by_cases hrange : 7 ≤ length ∧ length < 8192
      · simp only [if_pos hrange] at hhead
        rw [if_neg (not_not.mpr hrange)]
        refine Layout.turn_known hready hhead fun hwhole => ?_
        have hframe : (buf.take length).length = length := List.length_take_of_le hwhole
        have hbody : (layout crc32).body = body := rfl
        rw [slice?_zero hwhole, hbody]
        generalize buf.take length = frame at hframe ⊢
        subst hframe
        have hlong : 4 ≤ frame.length := by omega
        have hpos : dataPos? be16At? frame = some (dataPos be16At frame) :=
          dataPos?_eq (be16At?_eq (by omega)) hrange.1
        simp only [Option.bind_some, lastWord?_eq hlong (Nat.le_refl _), sub?_eq hlong,
          slice?_zero (Nat.sub_le frame.length 4), hpos, body]
        split
        · rfl
        · split
          · rfl
          · rw [slice?_eq (by omega) (Nat.sub_le _ 4)]
            rfl
      · simp only [if_neg hrange] at hhead
        rw [if_pos hrange, Layout.turn_head_fault hready hhead]
        rfl
  · rw [turn?, if_neg hguard, Layout.turn_short fun h => hguard h.1]
    rfl

theorem inBounds (crc32 : Crc32) : InBounds (turn? crc32) (decoder crc32).frames 7 where
  turn := turn?_eq crc32
  long := Layout.long fun h => (head_ok h).2.2.1

end AuthSha1V4Codec

/-! ## auth_aes128_md5 and auth_aes128_sha1 -/

namespace AuthAes128Codec

/-- `with_appended_u32_le(user_key, id, digest)` -/
def mac? (macs : Macs) (s : AuthAes128Codec) (id : UInt32) (data : Bytes) : Option Bytes := do
  let macKey ← withAppendedBytes? s.userKey (le32 id.toNat)
  return s.hmacKind.digestFixed macs macKey data

theorem mac?_eq (macs : Macs) (s : AuthAes128Codec) (id : UInt32) (data : Bytes) :
    s.mac? macs id data = some (s.mac macs id data) := by
  rw [mac?, withAppendedBytes?_eq]
  rfl

def turn? (macs : Macs) (s : AuthAes128Codec) (recvBuffer : Bytes) :
    Option (SsrVerdict AuthAes128Codec) :=
  if 4 < recvBuffer.length then do
    let headerMac ← s.mac? macs s.recvId (← slice? recvBuffer 0 2)
    if (← slice? headerMac 0 2) ≠ (← slice? recvBuffer 2 4) then
      return invalidData s [] "ShadowsocksR auth_aes128 response MAC mismatch"
    else
      let length ← le16At? recvBuffer 0
      if ¬ (7 ≤ length ∧ length < 8192) then
        return invalidData { s with rawRecv := true } []
          "ShadowsocksR auth_aes128 response length is invalid"
      else if recvBuffer.length < length then return .wait s
      else
        let frame ← slice? recvBuffer 0 length
        let mac ← s.mac? macs s.recvId (← slice? frame 0 (← sub? length 4))
        if (← slice? mac 0 4) ≠ (← slice? frame (← sub? length 4) length) then
          return invalidData { s with rawRecv := true } []
            "ShadowsocksR auth_aes128 response checksum mismatch"
        else
          let s := { s with recvId := s.recvId + 1 }
          let pos ← dataPos? le16At? frame
          if (← sub? length 4) < pos then
            return invalidData s recvBuffer "ShadowsocksR auth_aes128 response padding is invalid"
          else return .frame s length (← slice? frame pos (← sub? length 4))
  else return .wait s

theorem turn?_eq (macs : Macs) (s : AuthAes128Codec) (buf : Bytes) :
    turn? macs s buf = some ((decoder macs).frames.inspect s buf) := by
  change turn? macs s buf = some ((layout macs).turn s buf)
  have hmac (data : Bytes) {n : Nat} (hn : n ≤ 20) :
      slice? (s.mac macs s.recvId data) 0 n = some ((s.mac macs s.recvId data).take n) :=
    slice?_zero (by rw [mac_length]; exact hn)
  by_cases hguard : 4 < buf.length
  · have hready : (layout macs).guard s < buf.length ∧ (layout macs).ready s = true := ⟨hguard,rfl⟩
    have hlength : le16At (buf.take 4) 0 = le16At buf 0 := le16At_take (by decide)
    have htag : slice (buf.take 4) 2 4 = slice buf 2 4 := slice_take (by decide)
    have htwo : (buf.take 4).take 2 = buf.take 2 := by rw [List.take_take, Nat.min_eq_left (by decide)]
    have hhead : (layout macs).head s (buf.take ((layout macs).guard s)) =
        s.head macs (buf.take 4) := rfl
    rw [turn?, if_pos hguard, slice?_zero (by omega),
      slice?_eq (show 2 ≤ 4 by decide) (Nat.le_of_lt hguard), le16At?_eq (by omega)]
    simp only [Option.bind_eq_bind, Option.bind_some, mac?_eq, hmac _ (show 2 ≤ 20 by decide)]
    rw [head, hlength, htag, htwo] at hhead
    by_cases hfirst : (s.mac macs s.recvId (buf.take 2)).take 2 ≠ slice buf 2 4
    · simp only [if_pos hfirst] at hhead
      rw [if_pos hfirst, Layout.turn_head_fault hready hhead]
      rfl
    · simp only [if_neg hfirst] at hhead
      rw [if_neg hfirst]
      generalize le16At buf 0 = length at hhead ⊢
      by_cases hrange : 7 ≤ length ∧ length < 8192
      · simp only [if_pos hrange] at hhead
        rw [if_neg (not_not.mpr hrange)]
        refine Layout.turn_known hready hhead fun hwhole => ?_
        have hframe : (buf.take length).length = length := List.length_take_of_le hwhole
        have hbody : (layout macs).body = body macs := rfl
        rw [slice?_zero hwhole, hbody]
        generalize buf.take length = frame at hframe ⊢
        subst hframe
        have hlong : 4 ≤ frame.length := by omega
        have hpos : dataPos? le16At? frame = some (dataPos le16At frame) :=
          dataPos?_eq (le16At?_eq (by omega)) hrange.1
        have hlast : slice? frame (frame.length - 4) frame.length =
            some (frame.drop (frame.length - 4)) := by
          rw [slice?_eq (Nat.sub_le _ 4) (Nat.le_refl _), slice, List.take_length]
        simp only [Option.bind_some, sub?_eq hlong, slice?_zero (Nat.sub_le frame.length 4),
          hmac _ (show 4 ≤ 20 by decide), hlast, hpos, body]
        split
        · rfl
        · split
          · rfl
          · rw [slice?_eq (by omega) (Nat.sub_le _ 4)]
            rfl
      · simp only [if_neg hrange] at hhead
        rw [if_pos hrange, Layout.turn_head_fault hready hhead]
        rfl
  · rw [turn?, if_neg hguard, Layout.turn_short fun h => hguard h.1]
    rfl

theorem inBounds (macs : Macs) : InBounds (turn? macs) (decoder macs).frames 7 where
  turn := turn?_eq macs
  long := Layout.long fun h => (head_ok h).2.2.1

end AuthAes128Codec

end AtlasKernel.Shadowsocks.Ssr
