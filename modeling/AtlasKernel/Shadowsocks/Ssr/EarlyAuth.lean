import AtlasKernel.Shadowsocks.Ssr.Verify

/-! auth_simple, auth_sha1 and auth_sha1_v2. CRC-32 and HMAC-SHA1 are any functions, the
client id has the length of its kind. Source: `shadowsocks/ssr.rs`. -/
namespace AtlasKernel.Shadowsocks.Ssr
open AtlasKernel.Lib FrameDecoder

abbrev Crc32 := Bytes → UInt32

inductive EarlyAuthKind where
  | simple
  | sha1
  | sha1V2
deriving DecidableEq, Repr

def EarlyAuthKind.clientIdLen (kind : EarlyAuthKind) : Nat := if kind = .sha1V2 then 8 else 4

def EarlyAuthKind.unitLen : EarlyAuthKind → Nat
  | .simple => 4096
  | .sha1 | .sha1V2 => 8100

def EarlyAuthKind.randomLen (draw : Draw) : EarlyAuthKind → Nat
  | .simple => 0
  | .sha1 => draw.byte.toNat % 32
  | .sha1V2 => draw.word.toNat % 512

def EarlyAuthKind.salt : EarlyAuthKind → Bytes
  | .simple => utf8 "auth_simple".toList
  | .sha1 => utf8 "auth_sha1".toList
  | .sha1V2 => utf8 "auth_sha1_v2".toList

/-- How much of the first payload goes into the auth frame. -/
def EarlyAuthKind.authLen (draw : Draw) (payload : Bytes) (kind : EarlyAuthKind) : Nat :=
  let head := min (getSsrHeadSize payload 30) payload.length
  match kind with
  | .simple => head
  | .sha1 => min (head + draw.byte.toNat % 32) payload.length
  | .sha1V2 => min (head + draw.word.toNat % 512) payload.length

structure EarlyAuthCodec where
  key : Bytes
  iv : Bytes
  kind : EarlyAuthKind
  clientId : Bytes
  connectionId : UInt32
  sentHeader : Bool
  rawRecv : Bool
  clientId_length : clientId.length = kind.clientIdLen
deriving DecidableEq, Repr

/-- A frame as it was emitted, and the payload of a data frame. -/
inductive EarlyFrame where
  | auth (bytes : Bytes)
  | data (bytes payload : Bytes)
deriving DecidableEq, Repr

def EarlyFrame.bytes : EarlyFrame → Bytes
  | .auth bytes | .data bytes _ => bytes

/-- The data frames alone: what the other side sends back has their form. -/
def dataStream (frames : List EarlyFrame) : Bytes :=
  frames.flatMap fun | .auth _ => [] | .data bytes _ => bytes

def dataPayload (frames : List EarlyFrame) : Bytes :=
  frames.flatMap fun | .auth _ => [] | .data _ payload => payload

namespace EarlyAuthCodec
variable (crc32 : Crc32) (hmacSha1 : HmacSha1)

def new (key iv : Bytes) (kind : EarlyAuthKind) (draw : Draw) (id : UInt32) : EarlyAuthCodec where
  key := key
  iv := iv
  kind := kind
  clientId := pushRandomBytes draw kind.clientIdLen
  connectionId := id &&& 0x00ffffff
  sentHeader := false
  rawRecv := false
  clientId_length := pushRandomBytes_length ..

def pushRandom (draw : Draw) (size : Nat) : Bytes :=
  (if size < 255 then [UInt8.ofNat size] else 255 :: be16 size) ++ pushRandomBytes draw size

def authDataLen : Nat := 12

def pushAuthData (s : EarlyAuthCodec) (now : UInt32) : Bytes × EarlyAuthCodec :=
  ((if s.kind ≠ .sha1V2 then le32 now.toNat else []) ++ s.clientId ++ le32 s.connectionId.toNat,
    { s with connectionId := s.connectionId + 1 })

def packAuthData (s : EarlyAuthCodec) (draw : Draw) (now : UInt32) (payload : Bytes) :
    Bytes × EarlyAuthCodec :=
  if payload = [] then ([], s)
  else
    let randomLen := s.kind.randomLen draw
    let packedLen := 2 + 4 + 1 + randomLen + authDataLen + payload.length + 10
    let crcData := be16 packedLen ++ s.kind.salt ++ s.key
    let authData := s.pushAuthData now
    let output := be16 packedLen ++ le32 (crc32 crcData).toNat ++ pushRandom draw randomLen ++
      authData.1 ++ payload
    let tag := hmacSha1 (s.iv ++ s.key)
      (match s.kind with | .simple => output.drop 6 | .sha1 | .sha1V2 => output)
    (output ++ tag.toList.take 10, authData.2)

/-- The checksum is taken from behind the length and its CRC. -/
def packData (s : EarlyAuthCodec) (draw : Draw) (payload : Bytes) : Bytes :=
  let randomLen := s.kind.randomLen draw
  let packedLen := 2 + 2 + 1 + randomLen + payload.length + 4
  let front := be16 packedLen ++ le16 (crc32 (be16 packedLen)).toNat
  let inner := pushRandom draw randomLen ++ payload
  front ++ inner ++ le32 (adler32 inner)

/-- `encode`, with the frames kept apart. -/
def emit (s : EarlyAuthCodec) (d : Draws) (payload : Bytes) : List EarlyFrame × EarlyAuthCodec :=
  let (auth, s, remaining) :=
    if s.sentHeader then ([], s, payload)
    else
      let dataLen := s.kind.authLen d.head payload
      let (frame, s) := s.packAuthData crc32 hmacSha1 d.auth d.now (payload.take dataLen)
      (if frame = [] then [] else [EarlyFrame.auth frame], { s with sentHeader := true },
        payload.drop dataLen)
  (auth ++ (chunks s.kind.unitLen remaining).mapIdx fun i chunk =>
    EarlyFrame.data (s.packData crc32 (d.data i) chunk) chunk, s)

def encode (s : EarlyAuthCodec) (d : Draws) (payload : Bytes) : Bytes × EarlyAuthCodec :=
  ((s.emit crc32 hmacSha1 d payload).1.flatMap EarlyFrame.bytes,
    (s.emit crc32 hmacSha1 d payload).2)

def emitAll (s : EarlyAuthCodec) : List (Draws × Bytes) → List EarlyFrame
  | [] => []
  | (d, payload) :: calls =>
    (s.emit crc32 hmacSha1 d payload).1 ++ emitAll (s.emit crc32 hmacSha1 d payload).2 calls

/-! ## The decoder -/

def head (s : EarlyAuthCodec) (front : Bytes) : Except IoError Nat × EarlyAuthCodec :=
  let length := be16At front 0
  if 7 ≤ length ∧ length < 8192 then (.ok length, s)
  else (.error ⟨.invalidData, "ShadowsocksR auth response length is invalid"⟩,
    { s with rawRecv := true })

def body (s : EarlyAuthCodec) (frame : Bytes) :
    Except (IoError × Leftover) Bytes × EarlyAuthCodec :=
  let length := frame.length
  if adler32 (frame.take (length - 4)) ≠ le32At frame (length - 4) then
    (.error (⟨.invalidData, "ShadowsocksR auth response checksum mismatch"⟩, .behindFrame),
      { s with rawRecv := true })
  else if length - 4 < dataPos be16At frame then
    (.error (⟨.invalidData, "ShadowsocksR auth response padding is invalid"⟩, .behindFrame), s)
  else (.ok (slice frame (dataPos be16At frame) (length - 4)), s)

variable {crc32 : Crc32} {hmacSha1 : HmacSha1} {s s' : EarlyAuthCodec}

theorem head_ok {front : Bytes} {n : Nat} (h : s.head front = (.ok n, s')) :
    s' = s ∧ n = be16At front 0 ∧ 7 ≤ n ∧ n < 8192 := by
  rw [head] at h
  by_cases hlen : 7 ≤ be16At front 0 ∧ be16At front 0 < 8192
  · rw [if_pos hlen] at h
    cases h
    exact ⟨rfl, rfl, hlen⟩
  · rw [if_neg hlen] at h
    cases h

theorem body_ok {frame out : Bytes} (h : s.body frame = (.ok out, s')) :
    s' = s ∧ adler32 (frame.take (frame.length - 4)) = le32At frame (frame.length - 4) ∧
      dataPos be16At frame ≤ frame.length - 4 ∧
      out = slice frame (dataPos be16At frame) (frame.length - 4) := by
  rw [body] at h
  by_cases hsum : adler32 (frame.take (frame.length - 4)) ≠ le32At frame (frame.length - 4)
  · rw [if_pos hsum] at h
    cases h
  · rw [if_neg hsum] at h
    by_cases hpos : frame.length - 4 < dataPos be16At frame
    · rw [if_pos hpos] at h
      cases h
    · rw [if_neg hpos] at h
      cases h
      exact ⟨rfl, not_ne_iff.mp hsum, Nat.not_lt.mp hpos, rfl⟩

def layout : Layout EarlyAuthCodec UInt8 UInt8 IoError where
  guard _ := 4
  ready _ := true
  head := head
  body := body
  head_pos h := Nat.lt_of_lt_of_le (by decide) (head_ok h).2.2.1
  head_again := by
    intro s front n s' _ h
    obtain ⟨rfl,_⟩ := head_ok h
    exact ⟨rfl, rfl, h⟩

def decoder : SsrDecoder EarlyAuthCodec :=
  .ofLayout layout rawRecv (fun h => by rw [(head_ok h).1]) (fun h => by rw [(body_ok h).1])

/-- Length in range and right, checksum right, payload within the frame. -/
def Checked (s : EarlyAuthCodec) (frame out : Bytes) (s' : EarlyAuthCodec) : Prop :=
  frame.length = be16At frame 0 ∧ 7 ≤ frame.length ∧ frame.length < 8192 ∧
  adler32 (frame.take (frame.length - 4)) = le32At frame (frame.length - 4) ∧
  dataPos be16At frame ≤ frame.length - 4 ∧
  out = slice frame (dataPos be16At frame) (frame.length - 4) ∧ s' = s

theorem checks : decoder.frames.Checks id Checked := by
  refine Layout.checks (fun h => congrArg id (head_ok h).1) ?_
  intro s buf n s' out s'' hguard hle hh hb
  obtain ⟨rfl,hn,hmin,hmax⟩ := head_ok hh
  obtain ⟨rfl,hsum,hpos,hout⟩ := body_ok hb
  have hlen : (buf.take n).length = n := List.length_take_of_le hle
  have hhead : be16At (buf.take 4) 0 = be16At buf 0 := be16At_take (by decide)
  refine ⟨?_, by rwa [hlen], by rwa [hlen], hsum, hpos, hout, rfl⟩
  rw [hlen, be16At_take (by omega), ← hhead]
  exact hn

/-! ## Framing -/

/-- The length field is that of the frame, and one the decoder accepts. -/
def FramedRight (frame : Bytes) : Prop :=
  be16At frame 0 = frame.length ∧ 7 ≤ frame.length ∧ frame.length < 8192

theorem randomLen_lt (kind : EarlyAuthKind) (draw : Draw) : kind.randomLen draw < 512 := by
  cases kind <;> simp only [EarlyAuthKind.randomLen] <;> omega

theorem getSsrHeadSize_bounds (payload : Bytes) :
    0 < getSsrHeadSize payload 30 ∧ getSsrHeadSize payload 30 ≤ 259 := by
  have hsecond := (byteAt payload 1).toNat_lt
  cases payload with
  | nil => exact ⟨by decide, by decide⟩
  | cons first rest =>
    rw [getSsrHeadSize]
    split
    · omega
    split
    · omega
    split
    · omega
    · omega

theorem authLen_bounds (kind : EarlyAuthKind) (draw : Draw) {payload : Bytes} (h : payload ≠ []) :
    0 < kind.authLen draw payload ∧ kind.authLen draw payload ≤ 1024 := by
  have hhead := getSsrHeadSize_bounds payload
  have hpos := List.length_pos_iff.mpr h
  cases kind <;> simp only [EarlyAuthKind.authLen] <;> omega

theorem pushRandom_length (draw : Draw) (size : Nat) :
    (pushRandom draw size).length = (if size < 255 then 1 else 3) + size := by
  rw [pushRandom, List.length_append, pushRandomBytes_length]
  split <;> rfl

theorem pushAuthData_length (s : EarlyAuthCodec) (now : UInt32) :
    (s.pushAuthData now).1.length = authDataLen := by
  have hid := s.clientId_length
  rw [EarlyAuthKind.clientIdLen] at hid
  simp only [pushAuthData, List.length_append, le32_length, hid]
  by_cases hkind : s.kind = .sha1V2
  · simp [hkind, authDataLen]
  · simp [hkind, authDataLen]

/-- The long form of the random length takes two bytes more than the frame says. -/
theorem packAuthData_framed (crc32 : Crc32) (hmacSha1 : HmacSha1) (s : EarlyAuthCodec) (draw : Draw) (now : UInt32) {payload : Bytes}
    (hne : payload ≠ []) (hlen : payload.length ≤ 1024) :
    FramedRight (s.packAuthData crc32 hmacSha1 draw now payload).1 ↔
      s.kind.randomLen draw < 255 := by
  have hrandom := randomLen_lt s.kind draw
  have htag : ∀ m k, ((hmacSha1 m k).toList.take 10).length = 10 := by
    intro m k
    simp
  rw [packAuthData, if_neg hne]
  simp only [FramedRight, List.append_assoc, be16At_be16, List.length_append, be16_length,
    le32_length, pushRandom_length, pushAuthData_length, htag, authDataLen]
  split <;> omega

theorem packData_length (crc32 : Crc32) (s : EarlyAuthCodec) (draw : Draw) (payload : Bytes) :
    (s.packData crc32 draw payload).length =
      9 + s.kind.randomLen draw + payload.length +
        if s.kind.randomLen draw < 255 then 0 else 2 := by
  simp only [packData, List.length_append, be16_length, le16_length, le32_length,
    pushRandom_length]
  split <;> omega

theorem packData_checksum (crc32 : Crc32) (s : EarlyAuthCodec) (draw : Draw) (payload : Bytes)
    (h : (s.packData crc32 draw payload).length < 8192) :
    adler32 ((s.packData crc32 draw payload).take ((s.packData crc32 draw payload).length - 4)) ≠
      le32At (s.packData crc32 draw payload) ((s.packData crc32 draw payload).length - 4) := by
  have hlen := packData_length crc32 s draw payload
  refine checksum_behind_front _ ?_ (by simp) _
  rw [byteSum_append]
  exact Nat.add_pos_left (byteSum_be16 (by omega) (by omega)) _

/-- A data frame that says its length right is rejected for its checksum. -/
theorem packData_fault (s receiver : EarlyAuthCodec) (draw : Draw) (payload rest : Bytes)
    (h : FramedRight (s.packData crc32 draw payload)) :
    (decoder.frames.run receiver (s.packData crc32 draw payload ++ rest)).fault ≠ none := by
  obtain ⟨hfield,hmin,hmax⟩ := h
  have hlen := packData_length crc32 s draw payload
  have hguard : 4 < (s.packData crc32 draw payload ++ rest).length := by
    rw [List.length_append]
    omega
  have hle : (s.packData crc32 draw payload).length ≤
      (s.packData crc32 draw payload ++ rest).length := by
    rw [List.length_append]
    exact Nat.le_add_right ..
  have hhead : receiver.head ((s.packData crc32 draw payload ++ rest).take 4) =
      (.ok (s.packData crc32 draw payload).length, receiver) := by
    have hfront : be16At ((s.packData crc32 draw payload ++ rest).take 4) 0 =
        (s.packData crc32 draw payload).length := by
      rw [be16At_take (by decide), ← hfield, be16At, be16At, byteAt_append (by omega),
        byteAt_append (by omega)]
    rw [head, hfront, if_pos ⟨hmin, hmax⟩]
  have hsum := packData_checksum crc32 s draw payload hmax
  have hbody : receiver.body ((s.packData crc32 draw payload ++ rest).take
      (s.packData crc32 draw payload).length) =
      (.error (⟨.invalidData, "ShadowsocksR auth response checksum mismatch"⟩, .behindFrame),
        { receiver with rawRecv := true }) := by
    rw [List.take_left, body, if_pos hsum]
  have hturn : decoder.frames.inspect receiver (s.packData crc32 draw payload ++ rest) = _ :=
    Layout.turn_body_fault (l := layout) ⟨hguard, rfl⟩ hhead hle hbody
  rw [run_fault hturn]
  exact Option.some_ne_none _

/-! ## Runs -/

/-- No payload is left for a data frame, and the random part of the auth frame has the
short form. -/
def Fits (kind : EarlyAuthKind) (sentHeader : Bool) : List (Draws × Bytes) → Prop
  | [] => True
  | (d, payload) :: calls =>
    (payload = [] ∨ sentHeader = false ∧ payload.length ≤ kind.authLen d.head payload ∧
      kind.randomLen d.auth < 255) ∧ Fits kind true calls

/-- Every emitted frame says its length right, and the data frames decode to their
payloads, however they are cut. -/
def SelfConsistent (frames : List EarlyFrame) : Prop :=
  (∀ f ∈ frames, FramedRight f.bytes) ∧
  ∀ receiver : EarlyAuthCodec, receiver.rawRecv = false → ∀ pieces : List Bytes,
    pieces.flatten = dataStream frames →
      decoder.Decodes receiver [] pieces (dataPayload frames)

/-- An auth frame that says its length right. -/
def Sound : EarlyFrame → Prop
  | .auth bytes => FramedRight bytes
  | .data _ _ => False

theorem chunks_sound {crc : Crc32} (s : EarlyAuthCodec) (d : Draws) {n : Nat} (hn : n ≠ 0)
    (payload : Bytes) :
    (∀ f ∈ (chunks n payload).mapIdx fun i chunk =>
      EarlyFrame.data (s.packData crc (d.data i) chunk) chunk, Sound f) ↔ payload = [] := by
  constructor
  · intro h
    have hflat := chunks_flatten hn payload
    cases hc : chunks n payload with
    | nil =>
      rw [hc] at hflat
      exact hflat.symm
    | cons chunk rest =>
      rw [hc, List.mapIdx_cons] at h
      exact absurd (h _ List.mem_cons_self) id
  · rintro rfl
    rw [chunks, dif_pos (.inl rfl)]
    exact fun f hf => absurd hf List.not_mem_nil

theorem unitLen_ne_zero (kind : EarlyAuthKind) : kind.unitLen ≠ 0 := by
  cases kind <;> decide

theorem emit_state (crc32 : Crc32) (hmacSha1 : HmacSha1) (s : EarlyAuthCodec) (d : Draws) (payload : Bytes) :
    (s.emit crc32 hmacSha1 d payload).2.kind = s.kind ∧
      (s.emit crc32 hmacSha1 d payload).2.sentHeader = true := by
  rw [emit]
  cases hs : s.sentHeader with
  | true => exact ⟨rfl, hs⟩
  | false =>
    simp only [Bool.false_eq_true, if_false, packAuthData]
    split <;> simp [pushAuthData]

/-- One call emits sound frames only if it emits no data frame. -/
theorem emit_sound (s : EarlyAuthCodec) (d : Draws) (payload : Bytes) :
    (∀ f ∈ (s.emit crc32 hmacSha1 d payload).1, Sound f) ↔
      (payload = [] ∨ s.sentHeader = false ∧
        payload.length ≤ s.kind.authLen d.head payload ∧ s.kind.randomLen d.auth < 255) := by
  rw [emit]
  cases hs : s.sentHeader with
  | true => simpa using chunks_sound s d (unitLen_ne_zero s.kind) payload
  | false =>
    by_cases hp : payload = []
    · subst hp
      simp [packAuthData, chunks]
    · obtain ⟨hpos,hmax⟩ := authLen_bounds s.kind d.head hp
      have hslice : payload.take (s.kind.authLen d.head payload) ≠ [] := by
        rw [Ne, List.take_eq_nil_iff, not_or]
        exact ⟨Nat.pos_iff_ne_zero.mp hpos, hp⟩
      have hframed := packAuthData_framed crc32 hmacSha1 s d.auth d.now
        hslice (by rw [List.length_take]; omega)
      have hframe : (s.packAuthData crc32 hmacSha1 d.auth d.now
          (payload.take (s.kind.authLen d.head payload))).1 ≠ [] := by
        rw [packAuthData, if_neg hslice]
        simp [be16]
      have hkind : (s.packAuthData crc32 hmacSha1 d.auth d.now
          (payload.take (s.kind.authLen d.head payload))).2.kind = s.kind := by
        rw [packAuthData]
        split <;> rfl
      simp only [Bool.false_eq_true, if_false, if_neg hframe, hp, false_or, true_and,
        List.singleton_append, List.forall_mem_cons]
      rw [chunks_sound _ d (by rw [hkind]; exact unitLen_ne_zero _), List.drop_eq_nil_iff, and_comm]
      exact and_congr_right fun _ => hframed

theorem emitAll_sound (crc32 : Crc32) (hmacSha1 : HmacSha1) (s : EarlyAuthCodec) (calls : List (Draws × Bytes)) :
    (∀ f ∈ s.emitAll crc32 hmacSha1 calls, Sound f) ↔ Fits s.kind s.sentHeader calls := by
  induction calls generalizing s with
  | nil => simp [emitAll, Fits]
  | cons call calls ih =>
    obtain ⟨d,payload⟩ := call
    obtain ⟨hkind,hsent⟩ := emit_state crc32 hmacSha1 s d payload
    rw [emitAll, List.forall_mem_append, emit_sound, ih, hkind, hsent]
    rfl

theorem emit_data {d : Draws} {payload bytes chunk : Bytes}
    (h : EarlyFrame.data bytes chunk ∈ (s.emit crc32 hmacSha1 d payload).1) :
    ∃ t draw, bytes = packData crc32 t draw chunk := by
  rw [emit] at h
  rcases List.mem_append.mp h with h | h
  · split at h
    · exact absurd h List.not_mem_nil
    · simp only at h
      split at h
      · exact absurd h List.not_mem_nil
      · cases List.mem_singleton.mp h
  · obtain ⟨i,hi,heq⟩ := List.mem_mapIdx.mp h
    cases heq
    exact ⟨_, _, rfl⟩

theorem emitAll_data {calls : List (Draws × Bytes)} {bytes chunk : Bytes}
    (h : EarlyFrame.data bytes chunk ∈ s.emitAll crc32 hmacSha1 calls) :
    ∃ t draw, bytes = packData crc32 t draw chunk := by
  induction calls generalizing s with
  | nil => exact absurd h List.not_mem_nil
  | cons call calls ih =>
    rw [emitAll] at h
    rcases List.mem_append.mp h with h | h
    · exact emit_data h
    · exact ih h

/-- With a data frame among them, the data frames begin with one. -/
theorem dataStream_first {frames : List EarlyFrame}
    (h : ∃ bytes payload, EarlyFrame.data bytes payload ∈ frames) :
    ∃ bytes payload rest, EarlyFrame.data bytes payload ∈ frames ∧
      dataStream frames = bytes ++ rest := by
  induction frames with
  | nil =>
    obtain ⟨_,_,hmem⟩ := h
    exact absurd hmem List.not_mem_nil
  | cons f frames ih =>
    cases f with
    | data bytes payload =>
      exact ⟨bytes, payload, dataStream frames, List.mem_cons_self, by simp [dataStream]⟩
    | auth bytes =>
      obtain ⟨b,p,hmem⟩ := h
      rcases List.mem_cons.mp hmem with heq | hmem
      · cases heq
      · obtain ⟨b',p',rest,hmem',heq⟩ := ih ⟨b, p, hmem⟩
        refine ⟨b', p', rest, List.mem_cons_of_mem _ hmem', ?_⟩
        rw [← heq]
        rfl

theorem sound_dataStream {frames : List EarlyFrame} (h : ∀ f ∈ frames, Sound f) :
    dataStream frames = [] ∧ dataPayload frames = [] := by
  rw [dataStream, dataPayload, List.flatMap_eq_nil_iff, List.flatMap_eq_nil_iff]
  refine ⟨fun f hf => ?_, fun f hf => ?_⟩
  all_goals
    have hsound := h f hf
    cases f with
    | auth bytes => rfl
    | data bytes payload => exact absurd hsound id

theorem inspect_eq (s : EarlyAuthCodec) (buf : Bytes) :
    decoder.frames.inspect s buf = layout.turn s buf := SsrDecoder.ofLayout_inspect s buf

theorem inspect_nil (s : EarlyAuthCodec) : decoder.frames.inspect s [] = .wait s :=
  (inspect_eq s []).trans (layout.turn_nil s)

/-- Framing is self-consistent exactly in the runs without a data frame and without the
long form of the random length. -/
theorem early_auth_self_consistent_iff (s : EarlyAuthCodec) (crc32 : Crc32)
    (hmacSha1 : HmacSha1) (calls : List (Draws × Bytes)) :
    SelfConsistent (s.emitAll crc32 hmacSha1 calls) ↔ Fits s.kind s.sentHeader calls := by
  rw [← emitAll_sound crc32 hmacSha1]
  constructor
  · rintro ⟨hframed,hdecodes⟩ f hf
    cases f with
    | auth bytes => exact hframed (.auth bytes) hf
    | data bytes payload =>
      obtain ⟨b,p,rest,hmem,hstream⟩ := dataStream_first ⟨bytes, payload, hf⟩
      obtain ⟨t,draw,rfl⟩ := emitAll_data hmem
      have hright : FramedRight (packData crc32 t draw p) := hframed (.data _ p) hmem
      have hall := hdecodes { s with rawRecv := false } rfl
        [packData crc32 t draw p ++ rest] (by rw [hstream, List.flatten_singleton])
      rw [SsrDecoder.decodes_iff rfl (inspect_nil _), List.flatten_singleton] at hall
      exact absurd hall.1 (packData_fault t _ draw p rest hright)
  · intro hsound
    obtain ⟨hstream,hpayload⟩ := sound_dataStream hsound
    refine ⟨fun f hf => ?_, fun receiver hraw pieces hpieces => ?_⟩
    · have hf' := hsound f hf
      cases f with
      | auth bytes => exact hf'
      | data bytes payload => exact absurd hf' id
    · rw [SsrDecoder.decodes_iff hraw (inspect_nil _), hpieces, hstream, hpayload,
        List.append_nil, run_wait (inspect_nil _)]
      exact ⟨rfl, rfl⟩

/-- One data frame of one byte: the decoder answers it with a checksum mismatch. -/
theorem early_auth_not_self_consistent :
    ¬ SelfConsistent (({ new [] [] .simple zeroDraw 0 with sentHeader := true }).emitAll
      (fun _ => 0) (fun _ _ => Vector.replicate 20 0)
      [(⟨zeroDraw, zeroDraw, fun _ => zeroDraw, 0⟩, [65])]) := by
  intro h
  have hx := h.2 (new [] [] .simple zeroDraw 0) rfl [[0, 10, 0, 0, 0, 65, 66, 0, 67, 0]]
    (by decide +kernel)
  rw [SsrDecoder.decodes_iff rfl (inspect_nil _)] at hx
  exact absurd hx.1 (by decide +kernel)

end EarlyAuthCodec
end AtlasKernel.Shadowsocks.Ssr
