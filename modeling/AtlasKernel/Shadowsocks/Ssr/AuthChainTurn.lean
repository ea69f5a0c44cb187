import AtlasKernel.Shadowsocks.Ssr.Codec
import AtlasKernel.Shadowsocks.Ssr.FrameTurns

/-! One turn of the auth_chain decode loop with every index, subtraction and remainder checked,
and what follows for all SSR decoders: no call panics, and every call comes to an end.
Source: `shadowsocks/ssr/protocol/auth_chain.rs`, `shadowsocks/ssr.rs`. -/
namespace AtlasKernel.Shadowsocks.Ssr
open AtlasKernel.Lib FrameDecoder

/-! ## The generator -/

namespace XorShift128Plus

/-- `random.next() as usize % n` -/
def below? (random : XorShift128Plus) (n : Nat) : Option (Nat × XorShift128Plus) := do
  return (← mod? random.next.1.toNat n, random.next.2)

theorem below?_eq (random : XorShift128Plus) {n : Nat} (h : 0 < n) :
    random.below? n = some (random.below n) := by
  rw [below?, mod?_eq h]
  rfl

/-- `u64::from_le_bytes(bytes[i..i + 8].try_into().unwrap())` -/
def le64At? (bytes : Bytes) (i : Nat) : Option UInt64 := do
  return le64At (← slice? bytes i (i + 8)) 0

def initFromBinAndLength? (data : Bytes) (len : Nat) : Option XorShift128Plus := do
  let full := List.replicate 16 (0 : UInt8)
  let take := min data.length 16
  let full ← overwrite? full 0 (← slice? data 0 take)
  let full ← overwrite? full 0 (le16 len)
  let random : XorShift128Plus := ⟨← le64At? full 0, ← le64At? full 8⟩
  return random.next.2.next.2.next.2.next.2

theorem byteAt_zeros (bytes : Bytes) (n i : Nat) :
    byteAt (bytes ++ List.replicate n 0) i = byteAt bytes i := by
  by_cases h : i < bytes.length
  · exact byteAt_append h _
  · have hle := Nat.not_lt.mp h
    rw [byteAt, byteAt, List.getD_append_right _ _ _ _ hle, List.getD_eq_default _ _ hle,
      List.getD_eq_getElem?_getD, List.getElem?_replicate]
    split <;> rfl

theorem le64At_congr {bytes bytes' : Bytes} {i j : Nat}
    (h : ∀ k < 8, byteAt bytes (i + k) = byteAt bytes' (j + k)) : le64At bytes i = le64At bytes' j := by
  simp only [le64At, le32At, le16At, Nat.add_assoc, Nat.reduceAdd]
  rw [h 1 (by decide), h 2 (by decide), h 3 (by decide), h 4 (by decide), h 5 (by decide),
    h 6 (by decide), h 7 (by decide)]
  have hfirst : byteAt bytes i = byteAt bytes' j := h 0 (by decide)
  rw [hfirst]

theorem le64At?_eq {bytes : Bytes} {i : Nat} (h : i + 8 ≤ bytes.length) :
    le64At? bytes i = some (le64At bytes i) := by
  rw [le64At?, slice?_eq (Nat.le_add_right i 8) h]
  refine congrArg some (le64At_congr fun k hk => ?_)
  rw [Nat.zero_add, slice, List.drop_take, Nat.add_sub_cancel_left, byteAt_take hk, byteAt, byteAt,
    List.getD_eq_getElem?_getD, List.getD_eq_getElem?_getD, List.getElem?_drop]

theorem le64At_zeros (bytes : Bytes) (n i : Nat) :
    le64At (bytes ++ List.replicate n 0) i = le64At bytes i :=
  le64At_congr fun k _ => byteAt_zeros bytes n (i + k)

/-- A buffer of zeros, of which the front is written. -/
theorem overwrite?_zeros {front : Bytes} {n : Nat} (h : front.length ≤ n) :
    overwrite? (List.replicate n 0) 0 front = some (front ++ List.replicate (n - front.length) 0) := by
  rw [overwrite?_eq (by rw [List.length_replicate, Nat.zero_add]; exact h), overwrite,
    List.take_zero, List.nil_append, Nat.zero_add, List.drop_replicate]

theorem initFromBinAndLength?_eq (data : Bytes) (len : Nat) :
    initFromBinAndLength? data len = some (initFromBinAndLength data len) := by
  have hfront : data.take (min data.length 16) = data.take 16 := by
    rw [Nat.min_comm, ← List.take_eq_take_min]
  have hlen : (data.take 16).length ≤ 16 := List.length_take_le 16 data
  simp only [initFromBinAndLength?, initFromBinAndLength, slice?_zero (Nat.min_le_left data.length 16),
    hfront, Option.bind_eq_bind, Option.bind_some]
  generalize data.take 16 = front at hlen ⊢
  -- the buffer is the bytes, and zeros behind them
  have hfirst := overwrite?_zeros hlen
  have hsecond : overwrite? (front ++ List.replicate (16 - front.length) 0) 0 (le16 len) =
      some (le16 len ++ front.drop 2 ++ List.replicate (16 - front.length - (2 - front.length)) 0) := by
    rw [overwrite?_eq, overwrite, List.take_zero, List.nil_append, Nat.zero_add, le16_length,
      List.drop_append, List.drop_replicate, List.append_assoc]
    rw [le16_length, List.length_append, List.length_replicate]
    omega
  have hlong : 16 ≤ (le16 len ++ front.drop 2 ++
      List.replicate (16 - front.length - (2 - front.length)) (0 : UInt8)).length := by
    rw [List.length_append, List.length_append, le16_length, List.length_drop, List.length_replicate]
    omega
  have hlow := Nat.le_trans (show 0 + 8 ≤ 16 by decide) hlong
  simp only [hfirst, hsecond, Option.bind_some, le64At?_eq hlow, le64At?_eq hlong, le64At_zeros]
  rfl

end XorShift128Plus

/-! ## The length of the padding -/

def SizeList.get? (list : SizeList) (pos : Nat) : Option Nat := list.sizes[pos]?

theorem SizeList.get?_eq {list : SizeList} {pos : Nat} (h : pos < list.sizes.length) :
    list.get? pos = some (list.get pos) := by
  rw [get?, get, List.getElem?_eq_getElem h, List.getD_eq_getElem _ _ h]

def randLenAfterInitialized? (len : Nat) (random : XorShift128Plus) :
    Option (Nat × XorShift128Plus) :=
  if 1300 < len then random.below? 31
  else if 900 < len then random.below? 127
  else if 400 < len then random.below? 521
  else random.below? 1021

theorem randLenAfterInitialized?_eq (len : Nat) (random : XorShift128Plus) :
    randLenAfterInitialized? len random = some (randLenAfterInitialized len random) := by
  rw [randLenAfterInitialized?, randLenAfterInitialized]
  split
  · exact random.below?_eq (by decide)
  split
  · exact random.below?_eq (by decide)
  split
  · exact random.below?_eq (by decide)
  · exact random.below?_eq (by decide)

def randLenA? (len : Nat) (hash : Bytes) (random : XorShift128Plus) :
    Option (Nat × XorShift128Plus) :=
  if 1440 < len then some (0, random)
  else do
    let random ← XorShift128Plus.initFromBinAndLength? hash len
    randLenAfterInitialized? len random

namespace PaddingProfile
variable (p : PaddingProfile)

/-- `rand_len_b`, from the second list on. -/
def randLenB2? (len : Nat) (random : XorShift128Plus) : Option (Nat × XorShift128Plus) :=
  let pos := p.list2.partitionPoint (len + 4)
  if p.list2.sizes ≠ [] then do
    let (offset, random) ← random.below? p.list2.sizes.length
    let finalPos := pos + offset
    if finalPos < p.list2.sizes.length then
      return ((← p.list2.get? finalPos) - (len + 4), random)
    else if finalPos < pos + (p.list2.sizes.length - 1) then return (0, random)
    else randLenAfterInitialized? len random
  else randLenAfterInitialized? len random

def randLenB? (len : Nat) (hash : Bytes) (random : XorShift128Plus) :
    Option (Nat × XorShift128Plus) :=
  if 1440 ≤ len then some (0, random)
  else do
    let random ← XorShift128Plus.initFromBinAndLength? hash len
    let pos := p.list.partitionPoint (len + 4)
    if p.list.sizes ≠ [] then
      let (offset, random) ← random.below? p.list.sizes.length
      let finalPos := pos + offset
      if finalPos < p.list.sizes.length then return ((← p.list.get? finalPos) - (len + 4), random)
      else p.randLenB2? len random
    else p.randLenB2? len random

/-- The common end of `rand_len_c` and `rand_len_d`. -/
def randLenFromList? (otherSize : Nat) (random : XorShift128Plus) :
    Option (Nat × XorShift128Plus) :=
  let pos := p.list.partitionPoint otherSize
  if p.list.sizes.length ≤ pos then some (0, random)
  else do
    let span ← sub? p.list.sizes.length pos
    let (offset, random) ← random.below? span
    return ((← p.list.get? (pos + offset)) - otherSize, random)

def randLenC? (len : Nat) (hash : Bytes) : Option (Nat × XorShift128Plus) := do
  let random ← XorShift128Plus.initFromBinAndLength? hash len
  if p.list.last ≤ len + 4 then randLenAfterInitialized? len random
  else p.randLenFromList? (len + 4) random

def randLenD? (len : Nat) (hash : Bytes) (random : XorShift128Plus) :
    Option (Nat × XorShift128Plus) :=
  if p.list.last ≤ len + 4 then some (0, random)
  else do
    let random ← XorShift128Plus.initFromBinAndLength? hash len
    p.randLenFromList? (len + 4) random

/-- A position behind the list gives the size that was asked for, and so no padding. -/
def randLenE? (len : Nat) (hash : Bytes) : Option (Nat × XorShift128Plus) := do
  let random ← XorShift128Plus.initFromBinAndLength? hash len
  let otherSize := len + 4
  if p.list.last ≤ otherSize then return (0, random)
  else return ((p.list.get? (p.list.partitionPoint otherSize)).getD otherSize - otherSize, random)

def randLen? (len : Nat) (hash : Bytes) (random : XorShift128Plus) :
    Option (Nat × XorShift128Plus) :=
  match p.variant with
  | .A => randLenA? len hash random
  | .B => p.randLenB? len hash random
  | .C => p.randLenC? len hash
  | .D | .F => p.randLenD? len hash random
  | .E => p.randLenE? len hash

variable {p : PaddingProfile}

theorem randLenB2?_eq (len : Nat) (random : XorShift128Plus) :
    p.randLenB2? len random = some (p.randLenB2 len random) := by
  simp only [randLenB2?, randLenB2, randLenAfterInitialized?_eq]
  split
  case isTrue hne =>
    simp only [random.below?_eq (List.length_pos_of_ne_nil hne), Option.bind_eq_bind, Option.bind_some]
    split
    case isTrue hpos =>
      rw [SizeList.get?_eq hpos]
      rfl
    case isFalse => split <;> rfl
  case isFalse => rfl

theorem randLenB?_eq (len : Nat) (hash : Bytes) (random : XorShift128Plus) :
    p.randLenB? len hash random = some (p.randLenB len hash random) := by
  simp only [randLenB?, randLenB, XorShift128Plus.initFromBinAndLength?_eq, randLenB2?_eq,
    Option.bind_eq_bind, Option.bind_some]
  split
  case isTrue => rfl
  case isFalse =>
    split
    case isTrue hne =>
      rw [XorShift128Plus.below?_eq _ (List.length_pos_of_ne_nil hne)]
      simp only [Option.bind_some]
      split
      case isTrue hpos =>
        rw [SizeList.get?_eq hpos]
        rfl
      case isFalse => rfl
    case isFalse => rfl

theorem randLenFromList?_eq (otherSize : Nat) (random : XorShift128Plus) :
    p.randLenFromList? otherSize random = some (p.randLenFromList otherSize random) := by
  simp only [randLenFromList?, randLenFromList]
  split
  case isTrue => rfl
  case isFalse hpos =>
    have hspan : 0 < p.list.sizes.length - p.list.partitionPoint otherSize := by omega
    have hoffset := below_lt random hspan
    rw [sub?_eq (by omega)]
    simp only [random.below?_eq hspan, Option.bind_eq_bind, Option.bind_some]
    rw [SizeList.get?_eq (by omega)]
    rfl

theorem randLenE?_eq (len : Nat) (hash : Bytes) :
    p.randLenE? len hash = some (p.randLenE len hash) := by
  simp only [randLenE?, randLenE, XorShift128Plus.initFromBinAndLength?_eq, Option.bind_eq_bind,
    Option.bind_some]
  split
  case isTrue => rfl
  case isFalse =>
    by_cases hpos : p.list.partitionPoint (len + 4) < p.list.sizes.length
    · rw [SizeList.get?_eq hpos]
      rfl
    · have hbehind := Nat.not_lt.mp hpos
      rw [SizeList.get?, List.getElem?_eq_none hbehind, SizeList.get, List.getD_eq_default _ _ hbehind,
        Option.getD_none, Nat.sub_self, Nat.zero_sub]
      rfl

theorem randLen?_eq (p : PaddingProfile) (len : Nat) (hash : Bytes) (random : XorShift128Plus) :
    p.randLen? len hash random = some (p.randLen len hash random) := by
  rw [randLen?, randLen]
  cases p.variant with
  | A =>
    simp only [randLenA?, randLenA, XorShift128Plus.initFromBinAndLength?_eq,
      randLenAfterInitialized?_eq, Option.bind_eq_bind, Option.bind_some]
    split <;> rfl
  | B => exact randLenB?_eq len hash random
  | C =>
    simp only [randLenC?, randLenC, XorShift128Plus.initFromBinAndLength?_eq,
      randLenAfterInitialized?_eq, randLenFromList?_eq, Option.bind_eq_bind, Option.bind_some]
    split <;> rfl
  | D | F =>
    simp only [randLenD?, randLenD, XorShift128Plus.initFromBinAndLength?_eq,
      randLenFromList?_eq, Option.bind_eq_bind, Option.bind_some]
    split <;> rfl
  | E => exact randLenE?_eq len hash

end PaddingProfile

def randStartPos? (len : Nat) (random : XorShift128Plus) : Option (Nat × XorShift128Plus) :=
  if len = 0 then some (0, random)
  else do
    return (← mod? (random.next.1.toNat % 8589934609) len, random.next.2)

theorem randStartPos?_eq (len : Nat) (random : XorShift128Plus) :
    randStartPos? len random = some (randStartPos len random) := by
  rw [randStartPos?, randStartPos]
  split
  case isTrue => rfl
  case isFalse hlen =>
    rw [mod?_eq (Nat.pos_of_ne_zero hlen)]
    rfl

/-! ## auth_chain -/

namespace AuthChainCodec
variable {ρ : Type}

/-- Position of the data in the frame, drawn if there is padding around data. -/
def startPos? (s : AuthChainCodec ρ) (dataLen randLen : Nat) : Option (Nat × XorShift128Plus) :=
  if 0 < dataLen ∧ 0 < randLen then do
    let (start, random) ← randStartPos? randLen s.randomServer
    return (2 + start, random)
  else some (2, s.randomServer)

/-- `&data[2..]` of the first frame -/
def stripped? (recvId : UInt32) (data : Bytes) : Option Bytes :=
  if recvId = 1 ∧ 2 ≤ data.length then sliceFrom? data 2 else some data

def turn? (crypto : ChainCrypto ρ) (s : AuthChainCodec ρ) (recvBuffer : Bytes) :
    Option (SsrVerdict (AuthChainCodec ρ)) :=
  if 4 < recvBuffer.length then
    if (hashBytes s.lastServerHash).length < 16 ∨ s.decRc4.isNone = true then some (.wait s)
    else do
      let encodedLen ← le16At? recvBuffer 0
      let hashLen ← le16At? (hashBytes s.lastServerHash) 14
      let dataLen := encodedLen ^^^ hashLen
      let (randLen, random) ← s.profile.randLen? dataLen (hashBytes s.lastServerHash) s.randomServer
      let s := { s with randomServer := random }
      let length := dataLen + randLen
      if 4096 ≤ length then
        return invalidData { s with rawRecv := true } []
          "ShadowsocksR auth_chain response length is invalid"
      else if recvBuffer.length < 4 + length then return .wait s
      else
        let macKey ← withAppendedBytes? s.userKey (le32 s.recvId.toNat)
        let serverHash := crypto.hmacMd5 macKey (← slice? recvBuffer 0 (length + 2))
        if (← slice? serverHash.toList 0 2) ≠ (← slice? recvBuffer (length + 2) (length + 4)) then
          return invalidData { s with rawRecv := true } []
            "ShadowsocksR auth_chain response checksum mismatch"
        else
          let (pos, random) ← s.startPos? dataLen randLen
          let s := { s with lastServerHash := some serverHash, randomServer := random }
          if length + 2 < pos + dataLen then
            return invalidData s recvBuffer "ShadowsocksR auth_chain response padding is invalid"
          else
            let data ← slice? recvBuffer pos (pos + dataLen)
            let data' := match s.decRc4 with
              | some dec => crypto.rc4.output dec data
              | none => data
            let out ← stripped? s.recvId data'
            let s := { s with
              decRc4 := s.decRc4.map fun dec => crypto.rc4.after dec data
              recvId := s.recvId + 1 }
            return .frame s (length + 4) out
  else some (.wait s)

theorem startPos?_eq (s : AuthChainCodec ρ) (dataLen randLen : Nat) :
    s.startPos? dataLen randLen = some (s.startPos dataLen randLen) := by
  rw [startPos?, startPos]
  split
  · rw [randStartPos?_eq]
    rfl
  · rfl

theorem stripped?_eq (recvId : UInt32) (data : Bytes) :
    stripped? recvId data = some (stripped recvId data) := by
  rw [stripped?, stripped]
  split
  case isTrue h => exact sliceFrom?_eq h.2
  case isFalse => rfl

/-- There is a hash, or there is not one yet. -/
theorem hashBytes_length (hash : Option (Vector UInt8 16)) :
    (hashBytes hash).length < 16 ↔ hash.isSome = false := by
  cases hash with
  | none => exact ⟨fun _ => rfl,fun _ => Nat.zero_lt_succ 15⟩
  | some hash =>
    have hlen : (hashBytes (some hash)).length = 16 := Vector.length_toList
    rw [hlen]
    exact ⟨fun h => absurd h (Nat.lt_irrefl 16),fun h => by cases h⟩

/-- The guard of the loop is that of the decoder: there are a hash and a key. -/
theorem ready_iff (crypto : ChainCrypto ρ) (s : AuthChainCodec ρ) :
    (layout crypto).ready s = true ↔
      ¬ ((hashBytes s.lastServerHash).length < 16 ∨ s.decRc4.isNone = true) := by
  change (s.lastServerHash.isSome && s.decRc4.isSome) = true ↔ _
  rw [hashBytes_length]
  cases s.lastServerHash <;> cases s.decRc4 <;> simp

theorem turn?_eq (crypto : ChainCrypto ρ) (s : AuthChainCodec ρ) (buf : Bytes) :
    turn? crypto s buf = some ((decoder crypto).frames.inspect s buf) := by
  change turn? crypto s buf = some ((layout crypto).turn s buf)
  by_cases hguard : 4 < buf.length
  · by_cases hkeyed : (hashBytes s.lastServerHash).length < 16 ∨ s.decRc4.isNone = true
    · rw [turn?, if_pos hguard, if_pos hkeyed,
        Layout.turn_short fun h => (ready_iff crypto s).mp h.2 hkeyed]
    · have hready : (layout crypto).guard s < buf.length ∧ (layout crypto).ready s = true :=
        ⟨hguard,(ready_iff crypto s).mpr hkeyed⟩
      have hhash : 16 ≤ (hashBytes s.lastServerHash).length := not_lt.mp (not_or.mp hkeyed).1
      have hhead : (layout crypto).head s (buf.take ((layout crypto).guard s)) =
          s.head (buf.take 4) := rfl
      have hdata : s.dataLen (buf.take 4) = s.dataLen buf := dataLen_take s buf (by decide)
      rw [turn?, if_pos hguard, if_neg hkeyed, le16At?_eq (by omega), le16At?_eq (by omega)]
      simp only [Option.bind_eq_bind, Option.bind_some, PaddingProfile.randLen?_eq]
      change _ = some ((layout crypto).turn s buf)
      rw [head, hdata] at hhead
      have hlen : le16At buf 0 ^^^ le16At (hashBytes s.lastServerHash) 14 = s.dataLen buf := rfl
      rw [hlen]
      generalize hdraw : s.profile.randLen (s.dataLen buf) (hashBytes s.lastServerHash)
        s.randomServer = draw at hhead ⊢
      obtain ⟨randLen,random⟩ := draw
      simp only at hhead ⊢
      by_cases hlength : 4096 ≤ s.dataLen buf + randLen
      · rw [if_pos hlength] at hhead ⊢
        rw [Layout.turn_head_fault hready hhead]
        rfl
      · rw [if_neg hlength] at hhead ⊢
        refine Layout.turn_known hready hhead fun hwhole => ?_
        have hbody : (layout crypto).body = body crypto := rfl
        have htag (hash : Vector UInt8 16) : slice? hash.toList 0 2 = some (hash.toList.take 2) :=
          slice?_zero (by rw [Vector.length_toList]; decide)
        rw [hbody, withAppendedBytes?_eq,
          slice?_zero (show s.dataLen buf + randLen + 2 ≤ buf.length by omega),
          slice?_eq (Nat.add_le_add_left (by decide) _)
            (show s.dataLen buf + randLen + 4 ≤ buf.length by omega)]
        have hframe : (buf.take (4 + (s.dataLen buf + randLen))).length - 4 = s.dataLen buf + randLen := by
          rw [List.length_take_of_le hwhole, Nat.add_sub_cancel_left]
        have hsame (t : AuthChainCodec ρ) :
            t.dataLen (buf.take (4 + (s.dataLen buf + randLen))) = t.dataLen buf :=
          dataLen_take t buf (by omega)
        have hdata' : { s with randomServer := random }.dataLen buf = s.dataLen buf := rfl
        have hsigned : (buf.take (4 + (s.dataLen buf + randLen))).take (s.dataLen buf + randLen + 2) =
            buf.take (s.dataLen buf + randLen + 2) := by
          rw [List.take_take, Nat.min_eq_left (by omega)]
        have hslice {i j : Nat} (hj : j ≤ 4 + (s.dataLen buf + randLen)) :
            slice (buf.take (4 + (s.dataLen buf + randLen))) i j = slice buf i j := slice_take hj
        simp only [Option.bind_some, htag, startPos?_eq, stripped?_eq, body, hframe, hsame, hdata',
          hsigned, hslice (show s.dataLen buf + randLen + 4 ≤ _ by omega), Nat.add_sub_cancel_left]
        split
        · rfl
        · generalize { s with randomServer := random }.startPos (s.dataLen buf) randLen = drawn
          obtain ⟨pos,random'⟩ := drawn
          simp only
          by_cases hpadding : s.dataLen buf + randLen + 2 < pos + s.dataLen buf
          · rw [if_pos hpadding, if_pos hpadding]
            rfl
          · rw [if_neg hpadding, if_neg hpadding, slice?_eq (Nat.le_add_right _ _) (by omega),
              hslice (by omega), Nat.add_comm 4]
            rfl
  · rw [turn?, if_neg hguard, Layout.turn_short fun h => hguard h.1]

theorem inBounds (crypto : ChainCrypto ρ) : InBounds (turn? crypto) (decoder crypto).frames 4 where
  turn := turn?_eq crypto
  long := Layout.long fun h => by
    rw [(head_ok h).2.1]
    exact Nat.le_add_right 4 _

end AuthChainCodec

/-! ## All decoders -/

/-- What is done to a codec: bytes are decoded, or something is encoded. What encoding does to
the state the decoder reads is any function. -/
inductive CodecCall (σ : Type) where
  | decode (payload : Bytes)
  | encode (change : σ → σ)

namespace SsrProtocolCodec
variable {ρ : Type} (crypto : SsrCrypto ρ)

def turn? : (codec : SsrProtocolCodec) → (codec.checked crypto).State → Bytes →
    Option (SsrVerdict (codec.checked crypto).State)
  | .verifySimple => VerifySimpleCodec.turn?
  | .verifySha1 => VerifySha1Codec.turn? crypto.hmacSha1
  | .earlyAuth => EarlyAuthCodec.turn?
  | .authSha1V4 => AuthSha1V4Codec.turn? crypto.crc32
  | .authAes128 => AuthAes128Codec.turn? crypto.macs
  | .authChain => AuthChainCodec.turn? crypto.toChainCrypto

theorem inBounds (codec : SsrProtocolCodec) :
    InBounds (codec.turn? crypto) (codec.checked crypto).decoder.frames 4 := by
  cases codec with
  | verifySimple => exact VerifySimpleCodec.inBounds.mono (by decide)
  | verifySha1 => exact (VerifySha1Codec.inBounds crypto.hmacSha1).mono (by decide)
  | earlyAuth => exact EarlyAuthCodec.inBounds.mono (by decide)
  | authSha1V4 => exact (AuthSha1V4Codec.inBounds crypto.crc32).mono (by decide)
  | authAes128 => exact (AuthAes128Codec.inBounds crypto.macs).mono (by decide)
  | authChain => exact AuthChainCodec.inBounds crypto.toChainCrypto

/-- `decode`, in at most so many turns of its loop. -/
def decode? (codec : SsrProtocolCodec) (turns : Nat) (s : (codec.checked crypto).State)
    (recvBuffer payload : Bytes) : Ending (Decoded (codec.checked crypto).State UInt8 UInt8 IoError) :=
  if (codec.checked crypto).decoder.rawRecv s = true then .done ⟨s, recvBuffer, payload, none⟩
  else checkedLoop (codec.turn? crypto) turns s (recvBuffer ++ payload)

theorem decode?_eq (codec : SsrProtocolCodec) {turns : Nat} (s : (codec.checked crypto).State)
    (recvBuffer payload : Bytes) (h : (recvBuffer ++ payload).length < 4 * turns) :
    codec.decode? crypto turns s recvBuffer payload =
      .done ((codec.checked crypto).decoder.decode s recvBuffer payload) := by
  rw [decode?, SsrDecoder.decode]
  split
  · rfl
  · exact (codec.inBounds crypto).loop h

/-- The answers of the decode calls, with `turns n` turns for `n` bytes. -/
def calls? (codec : SsrProtocolCodec) (turns : Nat → Nat) (s : (codec.checked crypto).State)
    (recvBuffer : Bytes) :
    List (CodecCall (codec.checked crypto).State) → Ending (List (Bytes × Option IoError))
  | [] => .done []
  | .encode change :: calls => calls? codec turns (change s) recvBuffer calls
  | .decode payload :: calls =>
    match codec.decode? crypto (turns (recvBuffer ++ payload).length) s recvBuffer payload with
    | .panicked => .panicked
    | .unfinished => .unfinished
    | .done r => (calls? codec turns r.state r.rest calls).map ((r.out, r.fault) :: ·)

/-- How many answers there are to be. -/
def decodeCalls {σ : Type} : List (CodecCall σ) → Nat
  | [] => 0
  | .encode _ :: calls => decodeCalls calls
  | .decode _ :: calls => decodeCalls calls + 1

theorem calls?_done (codec : SsrProtocolCodec) {turns : Nat → Nat} (hturns : ∀ n, n < 4 * turns n)
    (s : (codec.checked crypto).State) (recvBuffer : Bytes)
    (calls : List (CodecCall (codec.checked crypto).State)) :
    ∃ answers, codec.calls? crypto turns s recvBuffer calls = .done answers ∧
      answers.length = decodeCalls calls := by
  induction calls generalizing s recvBuffer with
  | nil => exact ⟨[],rfl,rfl⟩
  | cons call calls ih =>
    cases call with
    | encode change => exact ih (change s) recvBuffer
    | decode payload =>
      have hcall := codec.decode?_eq crypto s recvBuffer payload (hturns _)
      generalize (codec.checked crypto).decoder.decode s recvBuffer payload = r at hcall
      obtain ⟨answers,hanswers,hlength⟩ := ih r.state r.rest
      refine ⟨(r.out, r.fault) :: answers,?_,?_⟩
      · rw [calls?, hcall]
        simp only [hanswers, Ending.map]
      · rw [List.length_cons, decodeCalls, hlength]

end SsrProtocolCodec

/-- Whatever the state of a codec and whatever bytes come, no turn of its decode loop panics,
and a turn that stays in the loop takes a frame of at least four bytes. So every call returns
what the decoder makes of the bytes, and so does every call of any run, in any pieces. -/
theorem ssr_decode_returns {ρ : Type} (crypto : SsrCrypto ρ) (codec : SsrProtocolCodec)
    (s : (codec.checked crypto).State) (recvBuffer : Bytes) :
    (∀ buf, (∃ s', codec.turn? crypto s buf = some (.wait s')) ∨
      (∃ s' rest err, codec.turn? crypto s buf = some (.fault s' rest err)) ∨
      ∃ s' n out, codec.turn? crypto s buf = some (.frame s' n out) ∧ 4 ≤ n ∧ n ≤ buf.length) ∧
    (∀ payload turns, (recvBuffer ++ payload).length < 4 * turns →
      codec.decode? crypto turns s recvBuffer payload =
        .done ((codec.checked crypto).decoder.decode s recvBuffer payload)) ∧
    ∀ turns, (∀ n, n < 4 * turns n) → ∀ calls, ∃ answers,
      codec.calls? crypto turns s recvBuffer calls = .done answers ∧
        answers.length = SsrProtocolCodec.decodeCalls calls :=
  ⟨(codec.inBounds crypto).progress s,
    fun payload _ hturns => codec.decode?_eq crypto s recvBuffer payload hturns,
    fun _ hturns calls => codec.calls?_done crypto hturns s recvBuffer calls⟩

end AtlasKernel.Shadowsocks.Ssr
