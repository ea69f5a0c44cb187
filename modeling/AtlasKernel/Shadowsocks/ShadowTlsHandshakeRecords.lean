import AtlasKernel.Lib.Checked
import AtlasKernel.Shadowsocks.ShadowTlsClientHello

/-! The records that the TLS library gets of a ShadowTLS version 3 handshake, index by index:
what is read of them is there, and what is rewritten stays a record.
Source: `shadowsocks/transport.rs`. -/
namespace AtlasKernel.Shadowsocks
open AtlasKernel.Lib FrameDecoder
variable {η : Type}

/-! ## With every index checked -/

/-- The extensions between `offset` and `end_`. -/
def hasTls13Extension? (payload : Bytes) (end_ offset : Nat) : Option Bool :=
  if _h : offset + 4 ≤ end_ then do
    let extType ← be16At? payload offset
    let extLen ← be16At? payload (offset + 2)
    if end_ < offset + 4 + extLen then return false
    else
      let tls13 ← if extType = 0x002b ∧ 2 ≤ extLen then
          (slice? payload (offset + 4) (offset + 4 + extLen)).map fun versions => decide (0x04 ∈ versions)
        else some false
      if tls13 then return true
      else hasTls13Extension? payload end_ (offset + 4 + extLen)
  else some false
termination_by end_ - offset

def shadowTlsV3ServerHelloIsTls13? (payload : Bytes) : Option Bool :=
  if payload.length < 1 + 3 + 2 + 32 + 1 then some false
  else do
    let offset := 1 + 3 + 2 + 32
    let sessionLen := (← byteAt? payload offset).toNat
    let offset := offset + 1 + sessionLen
    if payload.length < offset + 2 then return false
    else
      let cipherSuite ← be16At? payload offset
      if 0x1301 ≤ cipherSuite ∧ cipherSuite ≤ 0x1305 then return true
      else
        let offset := offset + 2
        if payload.length ≤ offset then return false
        else
          let compressionLen := (← byteAt? payload offset).toNat
          let offset := offset + 1 + compressionLen
          if payload.length < offset + 2 then return false
          else
            let extensionsLen ← be16At? payload offset
            let offset := offset + 2
            hasTls13Extension? payload (min (offset + extensionsLen) payload.length) offset

def shadowTlsV3CaptureServerHello? (env : ShadowTlsEnv η) (s : ShadowTlsV3HandshakeState η)
    (frame : Bytes) : Option (ShadowTlsV3HandshakeState η) :=
  if frame.length < 5 + 1 + 3 + 2 + 32 then some s
  else do
    if (← byteAt? frame 5) ≠ 0x02 then return s
    else
      let serverRandom ← slice? frame (5 + 1 + 3 + 2) (5 + 1 + 3 + 2 + 32)
      let isTls13 ← shadowTlsV3ServerHelloIsTls13? (← sliceFrom? frame 5)
      return { s with
        serverRandom := some serverRandom
        readHmac := some (env.mac.update (env.newFromSlice s.password) serverRandom)
        readHmacKey := some (env.sha256 (s.password ++ serverRandom))
        isTls13 := isTls13
        authorized := if isTls13 then s.authorized else true }

def shadowTlsV3VerifyApplicationData? (mac : Hmac η) (frame : Bytes) (hmac : η) (update : Bool) :
    Option (Bool × η) :=
  if frame.length < 9 then some (false, hmac)
  else do
    if (← byteAt? frame 0) ≠ 0x17 then return (false, hmac)
    else if (← byteAt? frame 1) ≠ 0x03 then return (false, hmac)
    else if (← byteAt? frame 2) ≠ 0x03 then return (false, hmac)
    else
      let hmac := mac.update hmac (← sliceFrom? frame 9)
      let expected := mac.first4 hmac
      let tag ← slice? frame 5 9
      return (decide (tag = expected), if update then mac.update hmac expected else hmac)

/-- The payload is unmasked where it is, the header is moved up to it over the tag, and then
what is before the header is dropped. -/
def unwrapInPlace? (key : Vector UInt8 32) (frame : Bytes) : Option Bytes := do
  let frame ← overwrite? frame 9 (xorKey key (← sliceFrom? frame 9))
  let newLen ← sub? frame.length 9
  let frame ← copyWithin? frame 0 5 4
  let frame ← sliceFrom? frame 4
  overwrite? frame 3 (be16 newLen)

def shadowTlsV3UnwrapHandshakeApplicationData? (env : ShadowTlsEnv η)
    (s : ShadowTlsV3HandshakeState η) (frame : Bytes) :
    Option (Bytes × ShadowTlsV3HandshakeState η) :=
  if frame.length < 9 then some (frame, s)
  else
    match s.readHmac with
    | none => some (frame, s)
    | some hmac => do
      match ← shadowTlsV3VerifyApplicationData? env.mac frame hmac false with
      | (false, hmac) => return (frame, { s with readHmac := some hmac, authorized := false })
      | (true, hmac) =>
        match s.readHmacKey with
        | none => return (frame, { s with readHmac := some hmac })
        | some key =>
          return (← unwrapInPlace? key frame, { s with readHmac := some hmac, authorized := true })

def shadowTlsV3DrainHandshakeFrame? (env : ShadowTlsEnv η) (s : ShadowTlsV3HandshakeState η)
    (frame : Bytes) : Option (Bytes × ShadowTlsV3HandshakeState η) := do
  let kind ← byteAt? frame 0
  if kind = 0x16 then return (frame, ← shadowTlsV3CaptureServerHello? env s frame)
  else if kind = 0x17 then shadowTlsV3UnwrapHandshakeApplicationData? env s frame
  else return (frame, s)

def shadowTlsV3DrainHandshakeRecords? (env : ShadowTlsEnv η) (s : ShadowTlsV3HandshakeState η)
    (raw buffer : Bytes) (drained : Bool) :
    Option (Bool × Bytes × Bytes × ShadowTlsV3HandshakeState η) :=
  if _h : raw.length < 5 then some (drained, raw, buffer, s)
  else do
    let len ← be16At? raw 3
    if raw.length < 5 + len then return (drained, raw, buffer, s)
    else
      let r ← shadowTlsV3DrainHandshakeFrame? env s (raw.take (5 + len))
      shadowTlsV3DrainHandshakeRecords? env r.2 (raw.drop (5 + len)) (buffer ++ r.1) true
termination_by raw.length
decreasing_by rw [List.length_drop]; omega

/-! ## Every index is in bounds -/

theorem hasTls13Extension?_eq {payload : Bytes} {end_ : Nat} (hend : end_ ≤ payload.length)
    (offset : Nat) :
    hasTls13Extension? payload end_ offset = some (hasTls13Extension payload end_ offset) := by
  induction offset using hasTls13Extension.induct payload end_ with
  | case4 offset h => rw [hasTls13Extension?, dif_neg h, hasTls13Extension, dif_neg h]
  | case1 offset h extLen hshort =>
    rw [hasTls13Extension?, dif_pos h, hasTls13Extension, dif_pos h, be16At?_eq (by omega),
      be16At?_eq (by omega)]
    simp only [Option.bind_eq_bind, Option.bind_some]
    rw [if_pos hshort, if_pos hshort]
    rfl
  | case2 offset h extType extLen hlong htls13 =>
    rw [hasTls13Extension?, dif_pos h, hasTls13Extension, dif_pos h, be16At?_eq (by omega),
      be16At?_eq (by omega)]
    simp only [Option.bind_eq_bind, Option.bind_some]
    rw [if_neg hlong, if_neg hlong, if_pos htls13, if_pos ⟨htls13.1,htls13.2.1⟩,
      slice?_eq (by omega) (by omega), Option.map_some, Option.bind_some]
    exact if_pos (decide_eq_true htls13.2.2)
  | case3 offset h extType extLen hlong hno ih =>
    rw [hasTls13Extension?, dif_pos h, hasTls13Extension, dif_pos h, be16At?_eq (by omega),
      be16At?_eq (by omega)]
    simp only [Option.bind_eq_bind, Option.bind_some]
    rw [if_neg hlong, if_neg hlong, if_neg hno]
    by_cases htyped : extType = 0x002b ∧ 2 ≤ extLen
    · have habsent : 0x04 ∉ slice payload (offset + 4) (offset + 4 + extLen) :=
        fun hmem => hno ⟨htyped.1,htyped.2,hmem⟩
      rw [if_pos htyped, slice?_eq (by omega) (by omega), Option.map_some, Option.bind_some,
        if_neg (by rw [decide_eq_true_iff]; exact habsent)]
      exact ih
    · rw [if_neg htyped, if_neg Bool.false_ne_true]
      exact ih

/-- The parser of the ServerHello stays in its payload. -/
theorem shadowTlsV3ServerHelloIsTls13?_eq (payload : Bytes) :
    shadowTlsV3ServerHelloIsTls13? payload = some (shadowTlsV3ServerHelloIsTls13 payload) := by
  rw [shadowTlsV3ServerHelloIsTls13?, shadowTlsV3ServerHelloIsTls13]
  split
  case isTrue => rfl
  case isFalse hlong =>
    simp only [Option.bind_eq_bind]
    rw [byteAt?_eq (by omega), Option.bind_some]
    split
    case isTrue => rfl
    case isFalse hsession =>
      rw [be16At?_eq (by omega), Option.bind_some]
      split
      case isTrue => rfl
      case isFalse =>
        split
        case isTrue => rfl
        case isFalse hcipher =>
          rw [byteAt?_eq (by omega), Option.bind_some]
          split
          case isTrue => rfl
          case isFalse hcompression =>
            rw [be16At?_eq (by omega), Option.bind_some]
            exact hasTls13Extension?_eq (Nat.min_le_right ..) _

variable (env : ShadowTlsEnv η)

theorem shadowTlsV3CaptureServerHello?_eq (s : ShadowTlsV3HandshakeState η) (frame : Bytes) :
    shadowTlsV3CaptureServerHello? env s frame = some (shadowTlsV3CaptureServerHello env s frame) := by
  rw [shadowTlsV3CaptureServerHello?, shadowTlsV3CaptureServerHello]
  by_cases hshort : frame.length < 5 + 1 + 3 + 2 + 32
  · rw [if_pos hshort, if_pos (.inl hshort)]
  · rw [if_neg hshort, byteAt?_eq (by omega)]
    simp only [Option.bind_eq_bind, Option.bind_some]
    by_cases hhello : byteAt frame 5 ≠ 0x02
    · rw [if_pos hhello, if_pos (.inr hhello)]
      rfl
    · rw [if_neg hhello, if_neg (not_or.mpr ⟨hshort,hhello⟩), slice?_eq (by omega) (by omega),
        sliceFrom?_eq (by omega)]
      simp only [Option.bind_some, shadowTlsV3ServerHelloIsTls13?_eq]
      rfl

theorem shadowTlsV3VerifyApplicationData?_eq (mac : Hmac η) (frame : Bytes) (hmac : η) (update : Bool) :
    shadowTlsV3VerifyApplicationData? mac frame hmac update =
      some (shadowTlsV3VerifyApplicationData mac frame hmac update) := by
  rw [shadowTlsV3VerifyApplicationData?, shadowTlsV3VerifyApplicationData]
  by_cases hshort : frame.length < 9
  · rw [if_pos hshort, if_pos (.inl hshort)]
  · rw [if_neg hshort, byteAt?_eq (by omega), byteAt?_eq (by omega), byteAt?_eq (by omega),
      sliceFrom?_eq (by omega), slice?_eq (by omega) (by omega)]
    simp only [Option.bind_eq_bind, Option.bind_some, hshort, false_or]
    split
    case isTrue hkind => rw [if_pos (.inl hkind)]; rfl
    case isFalse hkind =>
      split
      case isTrue hmajor => rw [if_pos (.inr (.inl hmajor))]; rfl
      case isFalse hmajor =>
        split
        case isTrue hminor => rw [if_pos (.inr (.inr hminor))]; rfl
        case isFalse hminor =>
          rw [if_neg (not_or.mpr ⟨hkind,not_or.mpr ⟨hmajor,hminor⟩⟩)]
          rfl

theorem xorKey_length (key : Vector UInt8 32) (data : Bytes) : (xorKey key data).length = data.length :=
  List.length_mapIdx

/-- What is left of a frame that is rewritten in place. -/
theorem unwrapInPlace?_eq (key : Vector UInt8 32) {frame : Bytes} (h : 9 ≤ frame.length) :
    unwrapInPlace? key frame =
      some (frame.take 3 ++ be16 (frame.length - 9) ++ xorKey key (frame.drop 9)) := by
  have hkey : (xorKey key (frame.drop 9)).length = frame.length - 9 := by
    rw [xorKey_length, List.length_drop]
  generalize hx : xorKey key (frame.drop 9) = x at hkey ⊢
  have hunmasked : overwrite frame 9 x = frame.take 9 ++ x := by
    rw [overwrite, List.drop_eq_nil_of_le (by omega), List.append_nil]
  have hlong : (frame.take 9 ++ x).length = frame.length := by
    rw [← hunmasked, overwrite_length (by omega)]
  have hheader : slice (frame.take 9 ++ x) 0 5 = frame.take 5 := by
    rw [← hunmasked, slice, List.drop_zero, overwrite_take (by decide) h]
  have hfive : (frame.take 5).length = 5 := by
    rw [List.length_take]
    omega
  have hmoved : (overwrite (frame.take 9 ++ x) 4 (frame.take 5)).drop 4 = frame.take 5 ++ x := by
    have hnine : (frame.take 9).length = 9 := by
      rw [List.length_take]
      omega
    have hfour : ((frame.take 9 ++ x).take 4).length = 4 := by
      rw [List.length_take]
      omega
    rw [overwrite, List.append_assoc, List.drop_left' hfour, hfive, List.drop_left' hnine]
  have hlast : overwrite (frame.take 5 ++ x) 3 (be16 (frame.length - 9)) =
      frame.take 3 ++ be16 (frame.length - 9) ++ x := by
    rw [overwrite, be16_length, List.take_append_of_le_length (by omega), List.take_take,
      List.drop_left' hfive]
    rfl
  rw [unwrapInPlace?, sliceFrom?_eq h]
  simp only [Option.bind_eq_bind, Option.bind_some, hx]
  rw [overwrite?_eq (by omega), hunmasked, Option.bind_some, hlong, sub?_eq h, Option.bind_some,
    copyWithin?_eq (by decide) (by omega) (by omega), Option.bind_some, hheader, sliceFrom?_eq,
    hmoved, Option.bind_some, overwrite?_eq, hlast]
  · rw [List.length_append, hfive, be16_length]
    omega
  · rw [overwrite_length (by omega)]
    omega

theorem shadowTlsV3UnwrapHandshakeApplicationData?_eq (s : ShadowTlsV3HandshakeState η) (frame : Bytes) :
    shadowTlsV3UnwrapHandshakeApplicationData? env s frame =
      some (shadowTlsV3UnwrapHandshakeApplicationData env s frame) := by
  rw [shadowTlsV3UnwrapHandshakeApplicationData?, shadowTlsV3UnwrapHandshakeApplicationData]
  split
  case isTrue => rfl
  case isFalse hlong =>
    cases s.readHmac with
    | none => rfl
    | some hmac =>
      dsimp only
      rw [shadowTlsV3VerifyApplicationData?_eq]
      simp only [Option.bind_eq_bind, Option.bind_some]
      generalize shadowTlsV3VerifyApplicationData env.mac frame hmac false = answer
      obtain ⟨verified,hmac'⟩ := answer
      cases verified with
      | false => rfl
      | true =>
        cases s.readHmacKey with
        | none => rfl
        | some key =>
          dsimp only
          rw [unwrapInPlace?_eq key (Nat.not_lt.mp hlong)]
          rfl

theorem shadowTlsV3DrainHandshakeFrame?_eq (s : ShadowTlsV3HandshakeState η) {frame : Bytes}
    (h : 5 ≤ frame.length) :
    shadowTlsV3DrainHandshakeFrame? env s frame = some (shadowTlsV3DrainHandshakeFrame env s frame) := by
  rw [shadowTlsV3DrainHandshakeFrame?, shadowTlsV3DrainHandshakeFrame, byteAt?_eq (by omega)]
  simp only [Option.bind_eq_bind, Option.bind_some]
  split
  case isTrue =>
    rw [shadowTlsV3CaptureServerHello?_eq]
    rfl
  case isFalse =>
    split
    case isTrue => exact shadowTlsV3UnwrapHandshakeApplicationData?_eq env s frame
    case isFalse => rfl

/-- Draining stays in its buffers, whatever has been received. -/
theorem shadowTlsV3DrainHandshakeRecords?_eq (s : ShadowTlsV3HandshakeState η) (raw buffer : Bytes)
    (drained : Bool) :
    shadowTlsV3DrainHandshakeRecords? env s raw buffer drained =
      some (shadowTlsV3DrainHandshakeRecords env s raw buffer drained) := by
  induction s, raw, buffer, drained using shadowTlsV3DrainHandshakeRecords.induct env with
  | case1 s raw buffer drained hshort =>
    rw [shadowTlsV3DrainHandshakeRecords?, dif_pos hshort, shadowTlsV3DrainHandshakeRecords,
      dif_pos hshort]
  | case2 s raw buffer drained hlong len hwait =>
    rw [shadowTlsV3DrainHandshakeRecords?, dif_neg hlong, shadowTlsV3DrainHandshakeRecords,
      dif_neg hlong, be16At?_eq (by omega)]
    simp only [Option.bind_eq_bind, Option.bind_some]
    rw [if_pos hwait, if_pos hwait]
    rfl
  | case3 s raw buffer drained hlong len hwhole r ih =>
    have hframe : 5 ≤ (raw.take (5 + len)).length := by
      rw [List.length_take]
      omega
    rw [shadowTlsV3DrainHandshakeRecords?, dif_neg hlong, shadowTlsV3DrainHandshakeRecords,
      dif_neg hlong, be16At?_eq (by omega)]
    simp only [Option.bind_eq_bind, Option.bind_some]
    rw [if_neg hwhole, if_neg hwhole, shadowTlsV3DrainHandshakeFrame?_eq env s hframe, Option.bind_some]
    exact ih

/-! ## What the library gets -/

/-- The key is that of the password and of the server's random. -/
structure HandshakeKeyed (env : ShadowTlsEnv η) (password : Bytes) (s : ShadowTlsV3HandshakeState η) : Prop where
  same : s.password = password
  key : s.readHmacKey = s.serverRandom.map fun serverRandom => env.sha256 (password ++ serverRandom)
  hmac : s.readHmac.isSome = s.serverRandom.isSome

/-- The record's tag is that of the running HMAC. -/
def Tagged (env : ShadowTlsEnv η) (s : ShadowTlsV3HandshakeState η) (frame : Bytes) : Prop :=
  byteAt frame 0 = 0x17 ∧
    ∃ hmac ∈ s.readHmac, (shadowTlsV3VerifyApplicationData env.mac frame hmac false).1 = true

/-- A record of the server's in one state, and what is passed of it. -/
structure Passes (env : ShadowTlsEnv η) (password : Bytes) (s : ShadowTlsV3HandshakeState η)
    (frame out : Bytes) : Prop where
  whole : frame.length = 5 + be16At frame 3
  wellFormed : out.length = 5 + be16At out 3
  typed : out.take 3 = frame.take 3
  tagged : Tagged env s frame → ∃ serverRandom ∈ s.serverRandom, out =
    frame.take 3 ++ be16 (frame.length - 9) ++
      xorKey (env.sha256 (password ++ serverRandom)) (frame.drop 9)
  other : ¬ Tagged env s frame → out = frame

variable {env} {password frame : Bytes} {s : ShadowTlsV3HandshakeState η}

theorem Passes.same (hwhole : frame.length = 5 + be16At frame 3) (h : ¬ Tagged env s frame) :
    Passes env password s frame frame :=
  ⟨hwhole,hwhole,rfl,fun htagged => absurd htagged h,fun _ => rfl⟩

theorem Passes.unwrapped {serverRandom : Bytes} (hwhole : frame.length = 5 + be16At frame 3)
    (hlong : 9 ≤ frame.length) (hrandom : s.serverRandom = some serverRandom) (h : Tagged env s frame) :
    Passes env password s frame (frame.take 3 ++ be16 (frame.length - 9) ++
      xorKey (env.sha256 (password ++ serverRandom)) (frame.drop 9)) := by
  have hlt := be16At_lt frame 3
  have hthree : (frame.take 3).length = 3 := by
    rw [List.length_take]
    omega
  refine ⟨hwhole,?_,?_,fun _ => ⟨serverRandom,hrandom,rfl⟩,fun hno => absurd h hno⟩
  · have hread := be16At_middle (frame.take 3) (show frame.length - 9 < 65536 by omega)
      (xorKey (env.sha256 (password ++ serverRandom)) (frame.drop 9))
    rw [hthree] at hread
    rw [List.append_assoc, hread, List.length_append, List.length_append, hthree, be16_length,
      xorKey_length, List.length_drop]
    omega
  · rw [List.append_assoc, List.take_left' hthree]

theorem capture_keyed (hs : HandshakeKeyed env password s) (frame : Bytes) :
    HandshakeKeyed env password (shadowTlsV3CaptureServerHello env s frame) := by
  rw [shadowTlsV3CaptureServerHello]
  split
  case isTrue => exact hs
  case isFalse => exact ⟨hs.same,by rw [hs.same]; rfl,rfl⟩

/-- A frame that the HMAC is not asked about. -/
theorem not_tagged_of_kind (h : byteAt frame 0 ≠ 0x17) : ¬ Tagged env s frame :=
  fun htagged => h htagged.1

theorem not_tagged_of_hmac (h : ∀ hmac ∈ s.readHmac,
    (shadowTlsV3VerifyApplicationData env.mac frame hmac false).1 = false) : ¬ Tagged env s frame := by
  rintro ⟨_,hmac,hmem,htrue⟩
  cases (h hmac hmem).symm.trans htrue

theorem unwrap_passes (hs : HandshakeKeyed env password s) (hwhole : frame.length = 5 + be16At frame 3)
    (hkind : byteAt frame 0 = 0x17) :
    Passes env password s frame (shadowTlsV3UnwrapHandshakeApplicationData env s frame).1 ∧
      HandshakeKeyed env password (shadowTlsV3UnwrapHandshakeApplicationData env s frame).2 := by
  rw [shadowTlsV3UnwrapHandshakeApplicationData]
  split
  case isTrue hshort =>
    refine ⟨.same hwhole (not_tagged_of_hmac fun hmac _ => ?_),hs⟩
    rw [shadowTlsV3VerifyApplicationData, if_pos (.inl hshort)]
  case isFalse hlong =>
    split
    case h_1 hnone =>
      refine ⟨.same hwhole (not_tagged_of_hmac fun hmac hmem => ?_),hs⟩
      cases hnone.symm.trans hmem
    case h_2 hmac hsome =>
      have hkeyed : ∀ hmac' authorized,
          HandshakeKeyed env password { s with readHmac := some hmac', authorized := authorized } :=
        fun hmac' _ => ⟨hs.same,hs.key,by rw [← hs.hmac, hsome]; rfl⟩
      split
      case h_1 hmac' hverify =>
        refine ⟨.same hwhole (not_tagged_of_hmac fun other hmem => ?_),hkeyed _ _⟩
        cases hsome.symm.trans hmem
        rw [hverify]
      case h_2 hmac' hverify =>
        have htagged : Tagged env s frame := ⟨hkind,hmac,hsome,by rw [hverify]⟩
        obtain ⟨serverRandom,hrandom⟩ : ∃ serverRandom, s.serverRandom = some serverRandom := by
          rw [← Option.isSome_iff_exists, ← hs.hmac, hsome]
          rfl
        have hkey : s.readHmacKey = some (env.sha256 (password ++ serverRandom)) := by
          rw [hs.key, hrandom]
          rfl
        split
        case h_1 hnone => cases hkey.symm.trans hnone
        case h_2 key hsome' =>
          cases hkey.symm.trans hsome'
          exact ⟨.unwrapped hwhole (Nat.not_lt.mp hlong) hrandom htagged,hkeyed _ _⟩

theorem drainHandshakeFrame_passes (hs : HandshakeKeyed env password s)
    (hwhole : frame.length = 5 + be16At frame 3) :
    Passes env password s frame (shadowTlsV3DrainHandshakeFrame env s frame).1 ∧
      HandshakeKeyed env password (shadowTlsV3DrainHandshakeFrame env s frame).2 := by
  rw [shadowTlsV3DrainHandshakeFrame]
  split
  case isTrue hhello =>
    refine ⟨.same hwhole (not_tagged_of_kind ?_),capture_keyed hs frame⟩
    rw [hhello]
    decide
  case isFalse =>
    split
    case isTrue hkind => exact unwrap_passes hs hwhole hkind
    case isFalse hkind => exact ⟨.same hwhole (not_tagged_of_kind hkind),hs⟩

/-- One record of the handshake: what is passed of it, and the state behind it. -/
def PassesRecord (env : ShadowTlsEnv η) (password : Bytes) (s : ShadowTlsV3HandshakeState η)
    (frame out : Bytes) (s' : ShadowTlsV3HandshakeState η) : Prop :=
  Passes env password s frame out ∧ s' = (shadowTlsV3DrainHandshakeFrame env s frame).2

theorem handshakeRecords_pass (hs : HandshakeKeyed env password s) (raw : Bytes) :
    ∃ records, Accepts (PassesRecord env password) s records ((handshakeRecords env).run s raw).out
        ((handshakeRecords env).run s raw).state ∧
      records.flatten ++ ((handshakeRecords env).run s raw).rest = raw := by
  induction s, raw using FrameDecoder.run.induct (handshakeRecords env) with
  | case1 s raw s' hi =>
    obtain ⟨_,hwait⟩ | ⟨_,hframe⟩ := handshakeTurn_cases env s raw
    · cases hwait.symm.trans hi
      rw [run_wait hi]
      exact ⟨[],.nil _,rfl⟩
    · cases hframe.symm.trans hi
  | case2 s raw s' rest e hi =>
    obtain ⟨_,hwait⟩ | ⟨_,hframe⟩ := handshakeTurn_cases env s raw
    · cases hwait.symm.trans hi
    · cases hframe.symm.trans hi
  | case3 s raw s' n out hi ih =>
    obtain ⟨_,hwait⟩ | ⟨hle,hframe⟩ := handshakeTurn_cases env s raw
    · cases hwait.symm.trans hi
    · cases hframe.symm.trans hi
      have hwhole : (raw.take (5 + be16At raw 3)).length =
          5 + be16At (raw.take (5 + be16At raw 3)) 3 := by
        rw [be16At_take (by omega), List.length_take, Nat.min_eq_left hle]
      obtain ⟨hpasses,hkeyed⟩ := drainHandshakeFrame_passes hs hwhole
      obtain ⟨records,haccepts,hrest⟩ := ih hkeyed
      rw [run_frame hi]
      refine ⟨raw.take (5 + be16At raw 3) :: records,.cons ⟨hpasses,rfl⟩ haccepts,?_⟩
      rw [List.flatten_cons, List.append_assoc, Decoded.after_rest, hrest, List.take_append_drop]

theorem new_keyed (env : ShadowTlsEnv η) (password : Bytes) : HandshakeKeyed env password (.new password) :=
  ⟨rfl,rfl,rfl⟩

/-- Whatever the server sends and however it is cut, the TLS library gets records, those with a
tag unmasked and without it and all others as they are; and no index is out of bounds. -/
theorem handshake_records_well_formed (env : ShadowTlsEnv η) (password : Bytes) (source : Source UInt8)
    (r : ReadSession (ShadowTlsV3HandshakeStream η) UInt8)
    (hr : Reads (FramedReader.pollRead (handshakeParser env))
      (ShadowTlsV3HandshakeStream.new source password) r) :
    (∃ records out s, Accepts (PassesRecord env password) (.new password) records out s ∧
      r.delivered <+: out ∧ records.flatten <+: sourceBytes source) ∧
    (∀ s raw buffer drained, shadowTlsV3DrainHandshakeRecords? env s raw buffer drained =
      some (shadowTlsV3DrainHandshakeRecords env s raw buffer drained)) ∧
    (∀ payload, shadowTlsV3ServerHelloIsTls13? payload =
      some (shadowTlsV3ServerHelloIsTls13 payload)) := by
  refine ⟨?_,shadowTlsV3DrainHandshakeRecords?_eq env,shadowTlsV3ServerHelloIsTls13?_eq⟩
  obtain ⟨consumed,hsource,hrun⟩ := FramedReader.reads_consuming (handshakeParser_follows env)
    (handshake_faultless env) rfl rfl hr
  obtain ⟨records,haccepts,hrest⟩ := handshakeRecords_pass (new_keyed env password) consumed
  refine ⟨records,_,_,haccepts,?_,?_⟩
  · have hout := congrArg Decoded.out hrun
    rw [Decoded.after_out, List.append_assoc] at hout
    exact ⟨_,hout⟩
  · rw [← hrest, List.append_assoc] at hsource
    exact ⟨_,hsource⟩

/-- An alert that comes in two pieces. -/
def alertInPieces : Source UInt8 := [.segment 0x15 [3, 3], .segment 0 [2, 2, 40]]

def alertRead : ReadSession (ShadowTlsV3HandshakeStream Unit) UInt8 :=
  (ReadSession.start (ShadowTlsV3HandshakeStream.new alertInPieces [1])).read
    (FramedReader.pollRead (handshakeParser silentEnv)) 4096

theorem handshake_records_well_formed_alert :
    ∃ records out s, Accepts (PassesRecord silentEnv [1]) (.new [1]) records out s ∧
      alertRead.delivered <+: out ∧ records.flatten <+: sourceBytes alertInPieces :=
  (handshake_records_well_formed silentEnv [1] alertInPieces alertRead
    (.read 4096 .start rfl (by decide))).1

end AtlasKernel.Shadowsocks
