import AtlasKernel.Lib.FramedReader
import AtlasKernel.Shadowsocks.ShadowTlsRecords

/-! The end of a ShadowTLS version 3 handshake. The TLS library reads the server's flight
through the handshake stream; the data stream goes on where the inner stream is then.
Source: `shadowsocks/transport.rs`. -/
namespace AtlasKernel.Shadowsocks
open AtlasKernel.Lib FrameDecoder
variable {η : Type*}

/-! ## The handshake stream -/

structure ShadowTlsEnv (η : Type*) where
  mac : Hmac η
  newFromSlice : Bytes → η
  sha256 : Bytes → Vector UInt8 32

/-- The fields of `ShadowTlsV3HandshakeStream` that reading uses, without the inner stream and
the two buffers. -/
structure ShadowTlsV3HandshakeState (η : Type*) where
  password : Bytes
  serverRandom : Option Bytes
  readHmac : Option η
  readHmacKey : Option (Vector UInt8 32)
  isTls13 : Bool
  authorized : Bool
deriving DecidableEq, Repr

def ShadowTlsV3HandshakeState.new (password : Bytes) : ShadowTlsV3HandshakeState η :=
  ⟨password, none, none, none, false, false⟩

/-- The extensions between `offset` and `end_`. -/
def hasTls13Extension (payload : Bytes) (end_ offset : Nat) : Bool :=
  if _h : offset + 4 ≤ end_ then
    let extType := be16At payload offset
    let extLen := be16At payload (offset + 2)
    if end_ < offset + 4 + extLen then false
    else if extType = 0x002b ∧ 2 ≤ extLen ∧ 0x04 ∈ slice payload (offset + 4) (offset + 4 + extLen) then
      true
    else hasTls13Extension payload end_ (offset + 4 + extLen)
  else false
termination_by end_ - offset

def shadowTlsV3ServerHelloIsTls13 (payload : Bytes) : Bool :=
  if payload.length < 1 + 3 + 2 + 32 + 1 then false
  else
    let offset := 1 + 3 + 2 + 32
    let sessionLen := (byteAt payload offset).toNat
    let offset := offset + 1 + sessionLen
    if payload.length < offset + 2 then false
    else
      let cipherSuite := be16At payload offset
      if 0x1301 ≤ cipherSuite ∧ cipherSuite ≤ 0x1305 then true
      else
        let offset := offset + 2
        if payload.length ≤ offset then false
        else
          let compressionLen := (byteAt payload offset).toNat
          let offset := offset + 1 + compressionLen
          if payload.length < offset + 2 then false
          else
            let extensionsLen := be16At payload offset
            let offset := offset + 2
            hasTls13Extension payload (min (offset + extensionsLen) payload.length) offset

def shadowTlsV3CaptureServerHello (env : ShadowTlsEnv η) (s : ShadowTlsV3HandshakeState η)
    (frame : Bytes) : ShadowTlsV3HandshakeState η :=
  if frame.length < 5 + 1 + 3 + 2 + 32 ∨ byteAt frame 5 ≠ 0x02 then s
  else
    let serverRandom := slice frame 11 43
    let isTls13 := shadowTlsV3ServerHelloIsTls13 (frame.drop 5)
    { s with
      serverRandom := some serverRandom
      readHmac := some (env.mac.update (env.newFromSlice s.password) serverRandom)
      readHmacKey := some (env.sha256 (s.password ++ serverRandom))
      isTls13 := isTls13
      authorized := if isTls13 then s.authorized else true }

def xorKey (key : Vector UInt8 32) (data : Bytes) : Bytes :=
  data.mapIdx fun index byte => byte ^^^ byteAt key.toList (index % 32)

/-- The frame is replaced only if it is unwrapped. -/
def shadowTlsV3UnwrapHandshakeApplicationData (env : ShadowTlsEnv η)
    (s : ShadowTlsV3HandshakeState η) (frame : Bytes) : Bytes × ShadowTlsV3HandshakeState η :=
  if frame.length < 9 then (frame, s)
  else
    match s.readHmac with
    | none => (frame, s)
    | some hmac =>
      match shadowTlsV3VerifyApplicationData env.mac frame hmac false with
      | (false, hmac) => (frame, { s with readHmac := some hmac, authorized := false })
      | (true, hmac) =>
        match s.readHmacKey with
        | none => (frame, { s with readHmac := some hmac })
        | some key =>
          (frame.take 3 ++ be16 (frame.length - 9) ++ xorKey key (frame.drop 9),
            { s with readHmac := some hmac, authorized := true })

/-- The loop body of `shadow_tls_v3_drain_handshake_records` on a whole frame. -/
def shadowTlsV3DrainHandshakeFrame (env : ShadowTlsEnv η) (s : ShadowTlsV3HandshakeState η)
    (frame : Bytes) : Bytes × ShadowTlsV3HandshakeState η :=
  if byteAt frame 0 = 0x16 then (frame, shadowTlsV3CaptureServerHello env s frame)
  else if byteAt frame 0 = 0x17 then shadowTlsV3UnwrapHandshakeApplicationData env s frame
  else (frame, s)

def shadowTlsV3DrainHandshakeRecords (env : ShadowTlsEnv η) (s : ShadowTlsV3HandshakeState η)
    (raw buffer : Bytes) (drained : Bool) : Bool × Bytes × Bytes × ShadowTlsV3HandshakeState η :=
  if _h : raw.length < 5 then (drained, raw, buffer, s)
  else
    let len := be16At raw 3
    if raw.length < 5 + len then (drained, raw, buffer, s)
    else
      let r := shadowTlsV3DrainHandshakeFrame env s (raw.take (5 + len))
      shadowTlsV3DrainHandshakeRecords env r.2 (raw.drop (5 + len)) (buffer ++ r.1) true
termination_by raw.length
decreasing_by rw [List.length_drop]; omega

/-- `poll_read` of the handshake stream. -/
def handshakeParser (env : ShadowTlsEnv η) : FrameParser (ShadowTlsV3HandshakeState η) UInt8 where
  drain s raw buffer :=
    let r := shadowTlsV3DrainHandshakeRecords env s raw buffer false
    (.ok r.1, r.2)
  chunk := 4096
  early := ⟨.unexpectedEof, "ShadowTLS v3 handshake record ended early"⟩

abbrev ShadowTlsV3HandshakeStream (η : Type*) := FramedReader (ShadowTlsV3HandshakeState η) UInt8

namespace ShadowTlsV3HandshakeStream

def new (source : Source UInt8) (password : Bytes) : ShadowTlsV3HandshakeStream η :=
  ⟨source, .new password, [], []⟩

/-- The mode of the data stream. -/
def verifiedMode (env : ShadowTlsEnv η) (s : ShadowTlsV3HandshakeState η) :
    Except String (ShadowTlsMode η) :=
  if s.authorized = false then .error "ShadowTLS v3 handshake was not authorised"
  else
    match s.serverRandom with
    | none => .error "ShadowTLS v3 server random is missing"
    | some serverRandom =>
      let keyed := env.mac.update (env.newFromSlice s.password) serverRandom
      .ok (.v3 (env.mac.update keyed [0x43]) (env.mac.update keyed [0x53]) s.readHmac)

/-- `into_verified_state` and `new_v3`: of the handshake stream, the inner stream and the HMAC
are kept. -/
def intoVerifiedState (env : ShadowTlsEnv η) (s : ShadowTlsV3HandshakeStream η) :
    Except String (FramedReader (ShadowTlsMode η) UInt8) :=
  (verifiedMode env s.state).map fun mode => ⟨s.source, mode, [], []⟩

end ShadowTlsV3HandshakeStream

/-- `poll_read` of a data stream that is not in plain mode. -/
def shadowTlsParser (mac : Hmac η) : FrameParser (ShadowTlsMode η) UInt8 where
  drain mode raw buffer := shadowTlsDrainRecords mac raw buffer mode false
  chunk := 4096
  early := ⟨.unexpectedEof, "ShadowTLS record ended early"⟩

/-! ## Both parsers as decoders -/

/-- The record at the front of the handshake stream's buffer. -/
def handshakeTurn (env : ShadowTlsEnv η) (s : ShadowTlsV3HandshakeState η) (raw : Bytes) :
    Verdict (ShadowTlsV3HandshakeState η) UInt8 UInt8 IoError :=
  if raw.length < 5 then .wait s
  else if raw.length < 5 + be16At raw 3 then .wait s
  else .frame (shadowTlsV3DrainHandshakeFrame env s (raw.take (5 + be16At raw 3))).2
    (5 + be16At raw 3) (shadowTlsV3DrainHandshakeFrame env s (raw.take (5 + be16At raw 3))).1

variable (env : ShadowTlsEnv η)

theorem handshakeTurn_cases (s : ShadowTlsV3HandshakeState η) (raw : Bytes) :
    ((raw.length < 5 ∨ raw.length < 5 + be16At raw 3) ∧ handshakeTurn env s raw = .wait s) ∨
    (5 + be16At raw 3 ≤ raw.length ∧ handshakeTurn env s raw =
      .frame (shadowTlsV3DrainHandshakeFrame env s (raw.take (5 + be16At raw 3))).2 (5 + be16At raw 3)
        (shadowTlsV3DrainHandshakeFrame env s (raw.take (5 + be16At raw 3))).1) := by
  rw [handshakeTurn]
  split
  case isTrue hshort => exact .inl ⟨.inl hshort, rfl⟩
  case isFalse =>
    split
    case isTrue hwait => exact .inl ⟨.inr hwait, rfl⟩
    case isFalse hwhole => exact .inr ⟨Nat.not_lt.mp hwhole, rfl⟩

theorem handshakeTurn_append (s : ShadowTlsV3HandshakeState η) {raw : Bytes}
    (hle : 5 + be16At raw 3 ≤ raw.length) (more : Bytes) :
    handshakeTurn env s (raw ++ more) = handshakeTurn env s raw := by
  have hfive : 5 ≤ raw.length := (Nat.le_add_right ..).trans hle
  have hlen := (head_append hfive more).2
  have hlong : (raw ++ more).length = raw.length + more.length := List.length_append
  rw [handshakeTurn, handshakeTurn, hlen, if_neg (by omega), if_neg (by omega), if_neg (by omega),
    if_neg (by omega), List.take_append_of_le_length hle]

def handshakeRecords : FrameDecoder (ShadowTlsV3HandshakeState η) UInt8 UInt8 IoError where
  inspect := handshakeTurn env
  frame_fits := by
    intro s raw s' n out h
    obtain ⟨_,hwait⟩ | ⟨hle,hframe⟩ := handshakeTurn_cases env s raw
    · cases hwait.symm.trans h
    · cases hframe.symm.trans h
      exact ⟨Nat.add_pos_left (by decide) _, hle⟩
  frame_stable := by
    intro s raw s' n out h more
    obtain ⟨_,hwait⟩ | ⟨hle,_⟩ := handshakeTurn_cases env s raw
    · cases hwait.symm.trans h
    · rw [handshakeTurn_append env s hle, h]
  fault_stable := by
    intro s raw s' rest e h
    obtain ⟨_,hwait⟩ | ⟨_,hframe⟩ := handshakeTurn_cases env s raw
    · cases hwait.symm.trans h
    · cases hframe.symm.trans h
  wait_stable := by
    intro s raw s' h more
    obtain ⟨_,hwait⟩ | ⟨_,hframe⟩ := handshakeTurn_cases env s raw
    · cases hwait.symm.trans h
      rfl
    · cases hframe.symm.trans h

theorem shadowTlsParser_follows (mac : Hmac η) : (shadowTlsParser mac).Follows (shadowTlsRecords mac) where
  chunk_pos := Nat.zero_lt_succ 4095
  moves mode raw buffer := (shadowTlsDrainRecords_run mac raw buffer mode false).1
  flag mode raw buffer hfault := by
    have hresult := (shadowTlsDrainRecords_run mac raw buffer mode false).2
    rw [hfault] at hresult
    change ∃ drained, (shadowTlsDrainRecords mac raw buffer mode false).1 = .ok drained ∧ _
    cases hdrain : (shadowTlsDrainRecords mac raw buffer mode false).1 with
    | error err =>
      rw [hdrain] at hresult
      cases hresult
    | ok drained =>
      refine ⟨drained, rfl, fun hfalse => ?_⟩
      rw [hfalse] at hdrain
      exact (shadowTlsDrainRecords_flag mac raw buffer mode false).2 hdrain
  fails mode raw buffer err herr := by
    have hresult := (shadowTlsDrainRecords_run mac raw buffer mode false).2
    rw [herr] at hresult
    change (shadowTlsDrainRecords mac raw buffer mode false).1 = .error err
    cases hdrain : (shadowTlsDrainRecords mac raw buffer mode false).1 with
    | error err' =>
      rw [hdrain] at hresult
      cases hresult
      rfl
    | ok drained =>
      rw [hdrain] at hresult
      cases hresult

@[simp] theorem handshakeRecords_inspect (s : ShadowTlsV3HandshakeState η) (raw : Bytes) :
    (handshakeRecords env).inspect s raw = handshakeTurn env s raw := rfl

theorem handshake_faultless (s : ShadowTlsV3HandshakeState η) (raw : Bytes) :
    ((handshakeRecords env).run s raw).fault = none := by
  induction s, raw using FrameDecoder.run.induct (handshakeRecords env) with
  | case1 s raw s' hi => rw [run_wait hi]
  | case2 s raw s' rest e hi =>
    obtain ⟨_,hwait⟩ | ⟨_,hframe⟩ := handshakeTurn_cases env s raw
    · cases hwait.symm.trans hi
    · cases hframe.symm.trans hi
  | case3 s raw s' n out hi ih =>
    rw [run_frame hi]
    exact ih

/-- The loop is the decoder's run. -/
theorem shadowTlsV3DrainHandshakeRecords_run (s : ShadowTlsV3HandshakeState η) (raw buffer : Bytes)
    (drained : Bool) :
    (shadowTlsV3DrainHandshakeRecords env s raw buffer drained).2 =
      (((handshakeRecords env).run s raw).rest, buffer ++ ((handshakeRecords env).run s raw).out,
        ((handshakeRecords env).run s raw).state) ∧
    (drained = true → (shadowTlsV3DrainHandshakeRecords env s raw buffer drained).1 = true) ∧
    ((shadowTlsV3DrainHandshakeRecords env s raw buffer drained).1 = false →
      ((handshakeRecords env).run s raw).out = []) := by
  induction s, raw, buffer, drained using shadowTlsV3DrainHandshakeRecords.induct env with
  | case1 s raw buffer drained hshort =>
    have hturn : handshakeTurn env s raw = .wait s := by rw [handshakeTurn, if_pos hshort]
    rw [shadowTlsV3DrainHandshakeRecords, dif_pos hshort, run_wait hturn, List.append_nil]
    exact ⟨rfl, id, fun _ => rfl⟩
  | case2 s raw buffer drained hlong len hwait =>
    have hturn : handshakeTurn env s raw = .wait s := by
      rw [handshakeTurn, if_neg hlong, if_pos hwait]
    rw [shadowTlsV3DrainHandshakeRecords, dif_neg hlong]
    dsimp only
    rw [if_pos hwait, run_wait hturn, List.append_nil]
    exact ⟨rfl, id, fun _ => rfl⟩
  | case3 s raw buffer drained hlong len hwhole r ih =>
    have hturn : handshakeTurn env s raw = .frame r.2 (5 + len) r.1 := by
      rw [handshakeTurn, if_neg hlong, if_neg hwhole]
    obtain ⟨hmoves,hflag,_⟩ := ih
    rw [shadowTlsV3DrainHandshakeRecords, dif_neg hlong]
    dsimp only
    rw [if_neg hwhole, run_frame hturn, Decoded.after_out, ← List.append_assoc]
    refine ⟨hmoves, fun _ => hflag rfl, fun hfalse => ?_⟩
    cases (hflag rfl).symm.trans hfalse

theorem handshakeParser_follows : (handshakeParser env).Follows (handshakeRecords env) where
  chunk_pos := Nat.zero_lt_succ 4095
  moves s raw buffer := (shadowTlsV3DrainHandshakeRecords_run env s raw buffer false).1
  flag s raw buffer _ :=
    ⟨_, rfl, (shadowTlsV3DrainHandshakeRecords_run env s raw buffer false).2.2⟩
  fails s raw buffer err herr := by
    rw [handshake_faultless] at herr
    cases herr

/-! ## What the handover depends on -/

theorem drainHandshakeFrame_ne_nil (s : ShadowTlsV3HandshakeState η) {frame : Bytes}
    (h : 5 ≤ frame.length) : (shadowTlsV3DrainHandshakeFrame env s frame).1 ≠ [] := by
  have hframe : frame ≠ [] := fun hnil => by
    rw [hnil] at h
    exact absurd h (by decide)
  have hunwrap : (shadowTlsV3UnwrapHandshakeApplicationData env s frame).1 ≠ [] := by
    rw [shadowTlsV3UnwrapHandshakeApplicationData]
    split
    case isTrue => exact hframe
    case isFalse =>
      split
      · exact hframe
      · split
        · exact hframe
        · split
          · exact hframe
          · intro hnil
            have hmiddle := (List.append_eq_nil_iff.mp (List.append_eq_nil_iff.mp hnil).1).2
            cases hmiddle
  rw [shadowTlsV3DrainHandshakeFrame]
  split
  case isTrue => exact hframe
  case isFalse =>
    split
    case isTrue => exact hunwrap
    case isFalse => exact hframe

/-- Every record of the handshake is handed to the TLS library in some form. -/
theorem handshake_silent {s : ShadowTlsV3HandshakeState η} {raw : Bytes}
    (h : ((handshakeRecords env).run s raw).out = []) : ((handshakeRecords env).run s raw).rest = raw := by
  obtain ⟨_,hwait⟩ | ⟨hle,hframe⟩ := handshakeTurn_cases env s raw
  · rw [run_wait hwait]
  · rw [run_frame hframe, Decoded.after_out] at h
    refine absurd (List.append_eq_nil_iff.mp h).1 (drainHandshakeFrame_ne_nil env s ?_)
    rw [List.length_take, Nat.min_eq_left hle]
    exact Nat.le_add_right ..

/-- The server's handshake is whole records, and `flight` is what the library gets of them. -/
def Unwraps (password handshake flight : Bytes) (s : ShadowTlsV3HandshakeState η) : Prop :=
  (handshakeRecords env).run (.new password) handshake = ⟨s, [], flight, none⟩

variable {env} {password handshake flight : Bytes} {s : ShadowTlsV3HandshakeState η}

theorem Unwraps.enough (h : Unwraps env password handshake flight s) (more : Bytes) :
    FramedReader.Enough (handshakeRecords env) (.new password) (handshake ++ more) handshake.length flight := by
  refine ⟨?_, handshake_faultless env _ _, ?_, fun k hk hprefix => ?_⟩
  · rw [List.length_append]
    exact Nat.le_add_right ..
  · rw [List.take_left, h]
  · rw [List.take_append_of_le_length (Nat.le_of_lt hk)] at hprefix
    -- what is not in the first `k` bytes is part of a record, and the library gets something of it
    have hsplit := (handshakeRecords env).run_append (.new password) (handshake.take k) (handshake.drop k)
      (handshake_faultless env _ _)
    rw [List.take_append_drop, h] at hsplit
    have hout := congrArg Decoded.out hsplit
    have hrest := congrArg Decoded.rest hsplit
    rw [Decoded.after_out] at hout
    rw [Decoded.after_rest] at hrest
    dsimp only at hout hrest
    have hsilent : ((handshakeRecords env).run ((handshakeRecords env).run (.new password)
        (handshake.take k)).state (((handshakeRecords env).run (.new password) (handshake.take k)).rest ++
          handshake.drop k)).out = [] := by
      have hle := hprefix.length_le
      have hlen := congrArg List.length hout
      rw [List.length_append] at hlen
      exact List.length_eq_zero_iff.mp (by omega)
    rw [handshake_silent env hsilent] at hrest
    have hnil := (List.append_eq_nil_iff.mp hrest.symm).2
    have hlong := List.drop_eq_nil_iff.mp hnil
    omega

/-- The handshake succeeds whatever the reads are; and then the data stream's readers get
`payload`, whatever theirs are. `tls` says of the bytes that the TLS library has got whether
its handshake is over with them. -/
def HandsOver (env : ShadowTlsEnv η) (tls : Bytes → Prop) (stream : ShadowTlsV3HandshakeStream η)
    (payload : Bytes) : Prop :=
  (∀ r, ReadsUntil tls (FramedReader.pollRead (handshakeParser env)) stream r →
    r.failed = false ∧ r.last ≠ some (.ready (.ok [])) ∧
      (tls r.delivered → ∃ data, ShadowTlsV3HandshakeStream.intoVerifiedState env r.stream = .ok data ∧
        FramedReader.Delivers (shadowTlsParser env.mac) data payload)) ∧
  ∃ r, ReadsUntil tls (FramedReader.pollRead (handshakeParser env)) stream r ∧ tls r.delivered

theorem handsOver_iff (h : Unwraps env password handshake flight s) (hne : handshake ≠ [])
    {tls : Bytes → Prop} (htls : ∀ received, tls received ↔ flight <+: received) {source : Source UInt8}
    (hf : Flawless source) {more : Bytes} (hwire : sourceBytes source = handshake ++ more)
    (payload : Bytes) :
    HandsOver env tls (.new source password) payload ↔
      ∃ k mode, firstCut 4096 handshake.length 0 source = some k ∧
        ShadowTlsV3HandshakeStream.verifiedMode env
          ((handshakeRecords env).run (.new password) ((handshake ++ more).take k)).state = .ok mode ∧
        FramedReader.Finished ((shadowTlsRecords env.mac).run mode ((handshake ++ more).drop k)) payload := by
  obtain rfl : tls = (flight <+: ·) := funext fun received => propext (htls received)
  let stream : ShadowTlsV3HandshakeStream η := .new source password
  have hfollows := handshakeParser_follows env
  have hfresh : FramedReader.Fresh (handshakeRecords env) stream := ⟨hf, rfl, rfl, rfl⟩
  have henough : FramedReader.Enough (handshakeRecords env) stream.state (sourceBytes stream.source)
      handshake.length flight := by
    have hmore := h.enough more
    rw [← hwire] at hmore
    exact hmore
  have hcut : (if 0 < handshake.length then firstCut 4096 handshake.length 0 source else some 0) =
      firstCut 4096 handshake.length 0 source := if_pos (List.length_pos_iff.mpr hne)
  -- where the handshake ends, and what the data stream is made of then
  have hdone : ∀ r, ReadsUntil (flight <+: ·) (FramedReader.pollRead (handshakeParser env)) stream r →
      flight <+: r.delivered → ∃ k, firstCut 4096 handshake.length 0 source = some k ∧
        r.stream.state = ((handshakeRecords env).run (.new password) ((handshake ++ more).take k)).state ∧
        ∀ mode, FramedReader.Delivers (shadowTlsParser env.mac) ⟨r.stream.source, mode, [], []⟩ payload ↔
          FramedReader.Finished ((shadowTlsRecords env.mac).run mode ((handshake ++ more).drop k)) payload := by
    intro r hr hreceived
    have hpumping := FramedReader.readsUntil_pumping hfollows hfresh henough hr
    obtain ⟨k,hk,hbytes,hflawless,hrun⟩ := hpumping.done henough hreceived
    rw [show sourceBytes stream.source = handshake ++ more from hwire] at hbytes hrun
    refine ⟨k, hcut.symm.trans hk, (congrArg Decoded.state hrun).symm, fun mode => ?_⟩
    rw [← hbytes]
    exact FramedReader.delivers_iff (shadowTlsParser_follows env.mac)
      (s := ⟨r.stream.source, mode, [], []⟩) hflawless rfl payload
  constructor
  · rintro ⟨hsafe,r,hr,hreceived⟩
    obtain ⟨k,hk,hstate,hdelivers⟩ := hdone r hr hreceived
    obtain ⟨data,hdata,hpayload⟩ := (hsafe r hr).2.2 hreceived
    rw [ShadowTlsV3HandshakeStream.intoVerifiedState, hstate] at hdata
    cases hmode : ShadowTlsV3HandshakeStream.verifiedMode env
        ((handshakeRecords env).run (.new password) ((handshake ++ more).take k)).state with
    | error err =>
      rw [hmode] at hdata
      cases hdata
    | ok mode =>
      rw [hmode] at hdata
      cases hdata
      exact ⟨k, mode, hk, hmode, (hdelivers mode).mp hpayload⟩
  · rintro ⟨k,mode,hk,hmode,hfinished⟩
    refine ⟨fun r hr => ?_, FramedReader.readsUntil_enough hfollows hfresh henough⟩
    obtain ⟨hfailed,hlast,_⟩ := FramedReader.readsUntil_pumping hfollows hfresh henough hr
    refine ⟨hfailed, hlast, fun hreceived => ?_⟩
    obtain ⟨k',hk',hstate,hdelivers⟩ := hdone r hr hreceived
    cases hk.symm.trans hk'
    refine ⟨_, ?_, (hdelivers mode).mpr hfinished⟩
    rw [ShadowTlsV3HandshakeStream.intoVerifiedState, hstate, hmode]
    rfl

/-! ## Records behind the handshake -/

/-- What a record of application data makes of the HMAC and of the authorisation. -/
def hearRecord (mac : Hmac η) (heard : η × Bool) (body : Bytes) : η × Bool :=
  let hmac := mac.update heard.1 (body.drop 4)
  (hmac, decide (body.take 4 = mac.first4 hmac))

/-- The handshake stream when it has heard so much. -/
def ShadowTlsV3HandshakeState.hearing (s : ShadowTlsV3HandshakeState η) (heard : η × Bool) :
    ShadowTlsV3HandshakeState η :=
  { s with readHmac := some heard.1, authorized := heard.2 }

/-- The body has room for a tag and fits the length field. -/
def TaggedBody (body : Bytes) : Prop := 4 ≤ body.length ∧ body.length < 65536

section
variable (env)

theorem handshakeTurn_record (s : ShadowTlsV3HandshakeState η) {body : Bytes} (h : TaggedBody body)
    (rest : Bytes) :
    handshakeTurn env s (tlsRecord body ++ rest) =
      .frame (shadowTlsV3DrainHandshakeFrame env s (tlsRecord body)).2 (tlsRecord body).length
        (shadowTlsV3DrainHandshakeFrame env s (tlsRecord body)).1 := by
  have hfield : be16At (tlsRecord body) 3 = body.length := ofBe16_of_lt h.2
  have hlen : 5 + be16At (tlsRecord body) 3 = (tlsRecord body).length := by rw [hfield, tlsRecord_length]
  have hshort : ¬ (tlsRecord body).length < 5 := by
    rw [tlsRecord_length]
    omega
  rw [handshakeTurn_append env s (Nat.le_of_eq hlen), handshakeTurn, if_neg hshort, hlen,
    if_neg (Nat.lt_irrefl _), List.take_length]

theorem drainHandshakeFrame_record {s : ShadowTlsV3HandshakeState η} {key : Vector UInt8 32}
    (hkey : s.readHmacKey = some key) {body : Bytes} (h : TaggedBody body) (heard : η × Bool) :
    (shadowTlsV3DrainHandshakeFrame env (s.hearing heard) (tlsRecord body)).2 =
      s.hearing (hearRecord env.mac heard body) := by
  have htag : (body.take 4).length = 4 := by
    rw [List.length_take]
    exact Nat.min_eq_left h.1
  have hverify := verify_record env.mac htag (body.drop 4) heard.1 false
  rw [List.take_append_drop] at hverify
  have hlong : ¬ (tlsRecord body).length < 9 := by
    have hfour := h.1
    rw [tlsRecord_length]
    omega
  have hunwrap : shadowTlsV3DrainHandshakeFrame env (s.hearing heard) (tlsRecord body) =
      shadowTlsV3UnwrapHandshakeApplicationData env (s.hearing heard) (tlsRecord body) := rfl
  rw [hunwrap, shadowTlsV3UnwrapHandshakeApplicationData, if_neg hlong]
  dsimp only [ShadowTlsV3HandshakeState.hearing]
  rw [hverify, hearRecord, hkey]
  by_cases heq : body.take 4 = env.mac.first4 (env.mac.update heard.1 (body.drop 4))
  · simp only [decide_eq_true heq]
    rfl
  · simp only [decide_eq_false heq]
    rfl

theorem handshake_hears {s : ShadowTlsV3HandshakeState η} {key : Vector UInt8 32}
    (hkey : s.readHmacKey = some key) (bodies : List Bytes) (h : ∀ body ∈ bodies, TaggedBody body)
    (heard : η × Bool) (rest : Bytes) :
    ∃ out, (handshakeRecords env).run (s.hearing heard) (bodies.flatMap tlsRecord ++ rest) =
      ((handshakeRecords env).run (s.hearing (bodies.foldl (hearRecord env.mac) heard)) rest).after out := by
  induction bodies generalizing heard with
  | nil => exact ⟨[], rfl⟩
  | cons body bodies ih =>
    have hbody := h body List.mem_cons_self
    obtain ⟨out,hrest⟩ := ih (fun b hb => h b (List.mem_cons_of_mem _ hb)) (hearRecord env.mac heard body)
    rw [List.flatMap_cons, List.append_assoc, run_frame (handshakeTurn_record env _ hbody _), List.drop_left,
      drainHandshakeFrame_record env hkey hbody, hrest, Decoded.after_after]
    exact ⟨_, rfl⟩

end

/-- Part of a frame waits for the rest. -/
theorem handshakeTurn_part (env : ShadowTlsEnv η) (s : ShadowTlsV3HandshakeState η) {raw out : Bytes}
    {s' : ShadowTlsV3HandshakeState η} {n k : Nat} (h : handshakeTurn env s raw = .frame s' n out)
    (hk : k < n) : handshakeTurn env s (raw.take k) = .wait s := by
  obtain ⟨_,hwait⟩ | ⟨hle,hframe⟩ := handshakeTurn_cases env s (raw.take k)
  · exact hwait
  · have hwhole := handshakeTurn_append env s hle (raw.drop k)
    rw [List.take_append_drop, h, hframe] at hwhole
    cases hwhole
    rw [List.length_take] at hle
    omega

/-! ### What a data stream makes of its bytes -/

/-- The stream is records of the ignored chain, then records of the data chain with `payload`;
the first of these is not one of the ignored chain, too. -/
def ReadsAs (mac : Hmac η) (ignore : Option η) (verify : η) (stream payload : Bytes) : Prop :=
  ∃ dropped accepted : List Bytes, (∀ body ∈ dropped ++ accepted, FitsRecord body) ∧
    accepted.flatten = payload ∧
    stream = ignoredRecords mac ignore dropped ++ (packAll (sealPayload mac) verify accepted).1.flatMap tlsRecord ∧
    ∀ ig ∈ ignore, ∀ first ∈ accepted.head?,
      mac.first4 (mac.update verify first) ≠ mac.first4 (mac.update (dropped.foldl mac.update ig) first)

section
variable (mac : Hmac η) (add verify : η)

theorem run_ignored (ignore : η) (payloads : List Bytes) (h : ∀ payload ∈ payloads, FitsRecord payload)
    (rest : Bytes) :
    (shadowTlsRecords mac).run (.v3 add verify (some ignore))
        (ignoredRecords mac (some ignore) payloads ++ rest) =
      (shadowTlsRecords mac).run (.v3 add verify (some (payloads.foldl mac.update ignore))) rest := by
  induction payloads generalizing ignore with
  | nil => rfl
  | cons payload payloads ih =>
    have hrest := ih (mac.update ignore payload) fun p hp => h p (List.mem_cons_of_mem _ hp)
    have hdrain := drainFrame_ignoring mac add verify (mac.first4_length (mac.update ignore payload)) payload
      ignore
    rw [if_pos rfl] at hdrain
    have hfirst := run_record_ok mac (sealed_length mac _ (h payload List.mem_cons_self)) hdrain
      (ignoredRecords mac (some (mac.update ignore payload)) payloads ++ rest)
    simp only [ignoredRecords, packAll, ignorePayload, List.flatMap_cons, List.singleton_append,
      List.append_assoc] at hfirst hrest ⊢
    rw [hfirst, hrest]
    rfl

/-- Records of both chains are read to the end. -/
theorem ReadsAs.finished {mac : Hmac η} {ignore : Option η} {verify : η} {stream payload : Bytes}
    (h : ReadsAs mac ignore verify stream payload) :
    FramedReader.Finished ((shadowTlsRecords mac).run (.v3 add verify ignore) stream) payload := by
  obtain ⟨dropped,accepted,hfits,rfl,rfl,hfirst⟩ := h
  have hdropped : ∀ body ∈ dropped, FitsRecord body := fun b hb => hfits b (List.mem_append_left _ hb)
  have haccepted : ∀ body ∈ accepted, FitsRecord body := fun b hb => hfits b (List.mem_append_right _ hb)
  have hdata := run_sealed mac add verify accepted haccepted []
  rw [List.append_nil, run_nil] at hdata
  have hnone : FramedReader.Finished ((shadowTlsRecords mac).run (.v3 add verify none)
      ((packAll (sealPayload mac) verify accepted).1.flatMap tlsRecord)) accepted.flatten := by
    rw [hdata]
    exact ⟨rfl, rfl, List.append_nil _⟩
  cases ignore with
  | none => exact hnone
  | some ig =>
    rw [run_ignored mac add verify ig dropped hdropped]
    cases accepted with
    | nil =>
      rw [packAll, List.flatMap_nil, run_nil]
      exact ⟨rfl, rfl, rfl⟩
    | cons first accepted =>
      have hbody := sealed_length mac (mac.update verify first) (haccepted first List.mem_cons_self)
      simp only [packAll, sealPayload, List.singleton_append, List.flatMap_cons] at hnone ⊢
      rw [run_not_tagged mac add verify (mac.first4_length _) hbody (hfirst ig rfl first rfl)]
      exact hnone

theorem fitsRecord_of_frame {frame tag payload : Bytes} (hframe : frame.length = 5 + be16At frame 3)
    (htag : tag.length = 4) (heq : frame = tlsRecord (tag ++ payload)) : FitsRecord payload := by
  have hlen := congrArg List.length heq
  have hlt := be16At_lt frame 3
  rw [hframe, tlsRecord_length, List.length_append, htag] at hlen
  rw [FitsRecord]
  omega

/-- With a record of the ignored chain in front. -/
theorem ReadsAs.ignored {ig : η} {first stream payload : Bytes} (hfirst : FitsRecord first)
    (h : ReadsAs mac (some (mac.update ig first)) verify stream payload) :
    ReadsAs mac (some ig) verify (tlsRecord (mac.first4 (mac.update ig first) ++ first) ++ stream)
      payload := by
  obtain ⟨dropped,accepted,hfits,hflat,hstream,hhead⟩ := h
  refine ⟨first :: dropped, accepted, ?_, hflat, ?_, ?_⟩
  · rw [List.cons_append, List.forall_mem_cons]
    exact ⟨hfirst, hfits⟩
  · rw [hstream]
    simp only [ignoredRecords, packAll, ignorePayload, List.singleton_append, List.flatMap_cons,
      List.append_assoc]
  · rintro ig₁ heq next hmem
    cases heq
    exact hhead _ rfl next hmem

/-- With a record of the data chain in front, where the ignored chain is over. -/
theorem ReadsAs.sealed {ignore : Option η} {first stream payload : Bytes} (hfirst : FitsRecord first)
    (hother : ∀ ig ∈ ignore,
      mac.first4 (mac.update verify first) ≠ mac.first4 (mac.update ig first))
    (h : ReadsAs mac none (mac.update (mac.update verify first) (mac.first4 (mac.update verify first)))
      stream payload) :
    ReadsAs mac ignore verify (tlsRecord (mac.first4 (mac.update verify first) ++ first) ++ stream)
      (first ++ payload) := by
  obtain ⟨dropped,accepted,hfits,hflat,hstream,_⟩ := h
  have hnone : ignoredRecords mac ignore [] = [] := by cases ignore <;> rfl
  refine ⟨[], first :: accepted, ?_, ?_, ?_, ?_⟩
  · rw [List.nil_append, List.forall_mem_cons]
    exact ⟨hfirst, fun body hmem => hfits body (List.mem_append_right _ hmem)⟩
  · rw [List.flatten_cons, hflat]
  · rw [hstream, hnone]
    simp only [ignoredRecords, packAll, sealPayload, List.singleton_append, List.flatMap_cons,
      List.nil_append]
  · rintro ig hig next hmem
    cases hmem
    exact hother ig hig

/-- What is read to the end is records of both chains. -/
theorem readsAs_of_finished {ignore : Option η} {stream payload : Bytes}
    (h : FramedReader.Finished ((shadowTlsRecords mac).run (.v3 add verify ignore) stream) payload) :
    ReadsAs mac ignore verify stream payload := by
  generalize hmode : ShadowTlsMode.v3 add verify ignore = mode at h
  induction mode, stream using FrameDecoder.run.induct (shadowTlsRecords mac) generalizing verify ignore payload with
  | case1 mode raw mode' hi =>
    rw [run_wait hi] at h
    obtain ⟨_,hrest,hout⟩ := h
    cases hrest
    cases hout
    refine ⟨[], [], fun body hmem => (by cases hmem), rfl, ?_, fun ig _ first hmem => (by cases hmem)⟩
    cases ignore <;> rfl
  | case2 mode raw mode' rest e hi =>
    rw [run_fault hi] at h
    cases h.1
  | case3 mode raw mode' n out hi ih =>
    subst hmode
    rw [run_frame hi] at h
    obtain ⟨hfault,hrest,rfl⟩ := h
    obtain ⟨hwait,_⟩ | ⟨_,_,hbad⟩ | ⟨_,hle,⟨out',m,hdrain,hframe⟩ | ⟨err,m,_,hfault'⟩⟩ :=
      shadowTlsTurn_cases mac (.v3 add verify ignore) raw
    · cases hwait.symm.trans hi
    · cases hbad.symm.trans hi
    · cases hframe.symm.trans hi
      have hwhole : (raw.take (5 + be16At raw 3)).length = 5 + be16At (raw.take (5 + be16At raw 3)) 3 := by
        rw [be16At_take (by omega), List.length_take, Nat.min_eq_left hle]
      obtain ⟨ig,ig',rfl,hverify,rfl,rfl⟩ | ⟨verify',hverify,rfl,rfl⟩ := drainFrame_ok mac add verify hdrain
      · obtain ⟨first,hrecord,hnext⟩ := verify_true mac hwhole hverify
        have hfirst := fitsRecord_of_frame hwhole (mac.first4_length _) hrecord
        rw [if_neg (by decide)] at hnext
        subst hnext
        have hignored := (ih verify rfl ⟨hfault, hrest, rfl⟩).ignored mac verify hfirst
        rw [← hrecord, List.take_append_drop] at hignored
        exact hignored
      · obtain ⟨first,hrecord,hnext⟩ := verify_true mac hwhole hverify
        have hfirst := fitsRecord_of_frame hwhole (mac.first4_length _) hrecord
        rw [if_pos rfl] at hnext
        subst hnext
        -- a record of the ignored chain would have been ignored
        have hother : ∀ ig ∈ ignore,
            mac.first4 (mac.update verify first) ≠ mac.first4 (mac.update ig first) := by
          rintro ig rfl htag
          have hignored := drainFrame_ignoring mac add verify (mac.first4_length (mac.update verify first))
            first ig
          rw [if_pos htag, ← hrecord, hdrain] at hignored
          obtain ⟨_,_,hphase⟩ := ShadowTlsMode.v3.inj (congrArg Prod.snd hignored)
          cases hphase
        have hsealed := (ih _ rfl ⟨hfault, hrest, rfl⟩).sealed mac verify hfirst hother
        rw [← hrecord, List.take_append_drop] at hsealed
        rw [hrecord, drop_record (mac.first4_length _)]
        exact hsealed
    · cases hfault'.symm.trans hi

end

/-! ### The cut -/

/-- What the reads of the handshake have taken of the records behind it: `j` whole records, and
`n` bytes of the next. -/
def CutAt (bodies : List Bytes) (j n : Nat) : Prop :=
  j ≤ bodies.length ∧ (n = 0 ∨ ∃ body ∈ bodies[j]?, n < (tlsRecord body).length)

theorem exists_cutAt (bodies : List Bytes) {m : Nat} (h : m ≤ (bodies.flatMap tlsRecord).length) :
    ∃ j n, CutAt bodies j n ∧ m = ((bodies.take j).flatMap tlsRecord).length + n := by
  induction bodies generalizing m with
  | nil => exact ⟨0, 0, ⟨Nat.le_refl _, .inl rfl⟩, Nat.le_zero.mp h⟩
  | cons body bodies ih =>
    by_cases hm : m < (tlsRecord body).length
    · exact ⟨0, m, ⟨Nat.zero_le _, .inr ⟨body, rfl, hm⟩⟩, (Nat.zero_add m).symm⟩
    · rw [List.flatMap_cons, List.length_append] at h
      obtain ⟨j,n,hcut,heq⟩ := ih (m := m - (tlsRecord body).length) (by omega)
      refine ⟨j + 1, n, ⟨Nat.succ_le_succ hcut.1, hcut.2⟩, ?_⟩
      rw [List.take_succ_cons, List.flatMap_cons, List.length_append]
      omega

theorem bodies_split (bodies : List Bytes) (j n : Nat) :
    (bodies.flatMap tlsRecord).take (((bodies.take j).flatMap tlsRecord).length + n) =
        (bodies.take j).flatMap tlsRecord ++ ((bodies.drop j).flatMap tlsRecord).take n ∧
      (bodies.flatMap tlsRecord).drop (((bodies.take j).flatMap tlsRecord).length + n) =
        ((bodies.drop j).flatMap tlsRecord).drop n := by
  have hsplit : bodies.flatMap tlsRecord =
      (bodies.take j).flatMap tlsRecord ++ (bodies.drop j).flatMap tlsRecord := by
    rw [← List.flatMap_append, List.take_append_drop]
  rw [hsplit, List.take_length_add_append, ← List.drop_drop, List.drop_left]
  exact ⟨rfl, rfl⟩

/-- What is left of the records stays in the buffer. -/
theorem handshakeTurn_cut (env : ShadowTlsEnv η) (s : ShadowTlsV3HandshakeState η) {bodies : List Bytes}
    {j n : Nat} (h : CutAt bodies j n) (htagged : ∀ body ∈ bodies, TaggedBody body) :
    handshakeTurn env s (((bodies.drop j).flatMap tlsRecord).take n) = .wait s := by
  obtain ⟨_,rfl | ⟨body,hbody,hn⟩⟩ := h
  · rfl
  · obtain ⟨hj,rfl⟩ := List.getElem?_eq_some_iff.mp hbody
    rw [List.drop_eq_getElem_cons hj, List.flatMap_cons]
    exact handshakeTurn_part env s
      (handshakeTurn_record env s (htagged _ (List.getElem_mem hj)) _) hn

/-- Password and keys of the handshake stream. -/
def Keyed (password : Bytes) (s : ShadowTlsV3HandshakeState η) : Prop :=
  s.password = password ∧ (s.readHmac ≠ none → s.readHmacKey ≠ none)

theorem keyed_frame {s : ShadowTlsV3HandshakeState η} (h : Keyed password s) (frame : Bytes) :
    Keyed password (shadowTlsV3DrainHandshakeFrame env s frame).2 := by
  obtain ⟨hpassword,hkey⟩ := h
  have hcapture : Keyed password (shadowTlsV3CaptureServerHello env s frame) := by
    rw [shadowTlsV3CaptureServerHello]
    split
    case isTrue => exact ⟨hpassword, hkey⟩
    case isFalse => exact ⟨hpassword, fun _ => Option.some_ne_none _⟩
  have hunwrap : Keyed password (shadowTlsV3UnwrapHandshakeApplicationData env s frame).2 := by
    rw [shadowTlsV3UnwrapHandshakeApplicationData]
    split
    case isTrue => exact ⟨hpassword, hkey⟩
    case isFalse =>
      split
      case h_1 => exact ⟨hpassword, hkey⟩
      case h_2 hmac hhmac =>
        have hsome : s.readHmacKey ≠ none := hkey (by rw [hhmac]; exact Option.some_ne_none _)
        split
        · exact ⟨hpassword, fun _ => hsome⟩
        · split <;> exact ⟨hpassword, fun _ => hsome⟩
  rw [shadowTlsV3DrainHandshakeFrame]
  split
  case isTrue => exact hcapture
  case isFalse =>
    split
    case isTrue => exact hunwrap
    case isFalse => exact ⟨hpassword, hkey⟩

theorem Unwraps.keyed (h : Unwraps env password handshake flight s) : Keyed password s := by
  have hrun : ∀ s raw, Keyed password s → Keyed password ((handshakeRecords env).run s raw).state := by
    intro s raw hs
    induction s, raw using FrameDecoder.run.induct (handshakeRecords env) with
    | case1 s raw s' hi =>
      obtain ⟨_,hwait⟩ | ⟨_,hframe⟩ := handshakeTurn_cases env s raw
      · cases hwait.symm.trans hi
        rw [run_wait hi]
        exact hs
      · cases hframe.symm.trans hi
    | case2 s raw s' rest e hi =>
      obtain ⟨_,hwait⟩ | ⟨_,hframe⟩ := handshakeTurn_cases env s raw
      · cases hwait.symm.trans hi
      · cases hframe.symm.trans hi
    | case3 s raw s' n out hi ih =>
      obtain ⟨_,hwait⟩ | ⟨_,hframe⟩ := handshakeTurn_cases env s raw
      · cases hwait.symm.trans hi
      · cases hframe.symm.trans hi
        rw [run_frame hi]
        exact ih (keyed_frame hs _)
  have hkeyed := hrun (.new password) handshake ⟨rfl, fun hne => absurd rfl hne⟩
  rw [h] at hkeyed
  exact hkeyed

/-- The state of the handshake stream at a cut. -/
theorem Unwraps.at_cut (h : Unwraps env password handshake flight s) {ignore : η}
    (hauth : s.authorized = true) (hignore : s.readHmac = some ignore) {bodies : List Bytes}
    (htagged : ∀ body ∈ bodies, TaggedBody body) {j n : Nat} (hcut : CutAt bodies j n) :
    ((handshakeRecords env).run (.new password) (handshake ++ ((bodies.take j).flatMap tlsRecord ++
        ((bodies.drop j).flatMap tlsRecord).take n))).state =
      s.hearing ((bodies.take j).foldl (hearRecord env.mac) (ignore, true)) := by
  obtain ⟨key,hkey⟩ := Option.ne_none_iff_exists'.mp (h.keyed.2 (by rw [hignore]; exact Option.some_ne_none _))
  have hself : s.hearing (ignore, true) = s := by
    rw [ShadowTlsV3HandshakeState.hearing, ← hignore, ← hauth]
  have htake : ∀ body ∈ bodies.take j, TaggedBody body := fun b hb => htagged b (List.mem_of_mem_take hb)
  obtain ⟨out,hrun⟩ := handshake_hears env hkey (bodies.take j) htake (ignore, true)
    (((bodies.drop j).flatMap tlsRecord).take n)
  have hwait := run_wait (c := handshakeRecords env)
    (handshakeTurn_cut env (s.hearing ((bodies.take j).foldl (hearRecord env.mac) (ignore, true))) hcut htagged)
  rw [hself, hwait] at hrun
  rw [(handshakeRecords env).run_append _ _ _ (handshake_faultless env _ _), h, List.nil_append, hrun]
  rfl

/-- The HMAC of the data that comes from the server. -/
def ShadowTlsEnv.verifyHmac (env : ShadowTlsEnv η) (password serverRandom : Bytes) : η :=
  env.mac.update (env.mac.update (env.newFromSlice password) serverRandom) [0x53]

/-- The data stream goes on rightly: behind `n` bytes of record `j` stand records with
`payload`, and the last whole record had the tag of the handshake's chain. -/
def Resumes (env : ShadowTlsEnv η) (bodies : List Bytes) (ignore verify : η) (payload : Bytes)
    (j n : Nat) : Prop :=
  let heard := (bodies.take j).foldl (hearRecord env.mac) (ignore, true)
  heard.2 = true ∧ ReadsAs env.mac (some heard.1) verify (((bodies.drop j).flatMap tlsRecord).drop n) payload

theorem Unwraps.resumes_iff (h : Unwraps env password handshake flight s) {random : Bytes} {ignore : η}
    (hauth : s.authorized = true) (hrandom : s.serverRandom = some random)
    (hignore : s.readHmac = some ignore) {bodies : List Bytes} (htagged : ∀ body ∈ bodies, TaggedBody body)
    (payload : Bytes) {j n k : Nat} (hcut : CutAt bodies j n)
    (hk : k = handshake.length + (((bodies.take j).flatMap tlsRecord).length + n)) :
    (∃ mode, ShadowTlsV3HandshakeStream.verifiedMode env ((handshakeRecords env).run (.new password)
        ((handshake ++ bodies.flatMap tlsRecord).take k)).state = .ok mode ∧
      FramedReader.Finished ((shadowTlsRecords env.mac).run mode
        ((handshake ++ bodies.flatMap tlsRecord).drop k)) payload) ↔
      Resumes env bodies ignore (env.verifyHmac password random) payload j n := by
  obtain ⟨htake,hdrop⟩ := bodies_split bodies j n
  rw [hk, List.take_length_add_append, ← List.drop_drop, List.drop_left, htake, hdrop,
    h.at_cut hauth hignore htagged hcut, Resumes]
  generalize (bodies.take j).foldl (hearRecord env.mac) (ignore, true) = heard
  have hmode : ShadowTlsV3HandshakeStream.verifiedMode env (s.hearing heard) =
      if heard.2 = false then .error "ShadowTLS v3 handshake was not authorised"
      else .ok (.v3 (env.mac.update (env.mac.update (env.newFromSlice password) random) [0x43])
        (env.verifyHmac password random) (some heard.1)) := by
    simp only [ShadowTlsV3HandshakeStream.verifiedMode, ShadowTlsV3HandshakeState.hearing, hrandom,
      h.keyed.1, ShadowTlsEnv.verifyHmac]
  rw [hmode]
  cases hheard : heard.2 with
  | false =>
    rw [if_pos rfl]
    exact ⟨fun ⟨mode,hmode,_⟩ => (by cases hmode), fun hresumes => (by cases hresumes.1)⟩
  | true =>
    rw [if_neg (by decide)]
    constructor
    · rintro ⟨mode,hmode,hfinished⟩
      cases hmode
      exact ⟨rfl, readsAs_of_finished env.mac _ _ hfinished⟩
    · rintro ⟨_,hreads⟩
      exact ⟨_, rfl, hreads.finished _⟩

theorem handsOver_iff_resumes (h : Unwraps env password handshake flight s) {random : Bytes} {ignore : η}
    (hauth : s.authorized = true) (hrandom : s.serverRandom = some random)
    (hignore : s.readHmac = some ignore) {tls : Bytes → Prop}
    (htls : ∀ received, tls received ↔ flight <+: received) {source : Source UInt8}
    (hf : Flawless source) {bodies : List Bytes} (htagged : ∀ body ∈ bodies, TaggedBody body)
    (hwire : sourceBytes source = handshake ++ bodies.flatMap tlsRecord) (payload : Bytes) :
    HandsOver env tls (.new source password) payload ↔
      ∃ j n, CutAt bodies j n ∧ firstCut 4096 handshake.length 0 source =
          some (handshake.length + (((bodies.take j).flatMap tlsRecord).length + n)) ∧
        Resumes env bodies ignore (env.verifyHmac password random) payload j n := by
  have hne : handshake ≠ [] := by
    rintro rfl
    have hnil : (handshakeRecords env).run (.new password) [] = ⟨.new password, [], [], none⟩ := run_wait rfl
    rw [Unwraps, hnil] at h
    cases h
    cases hauth
  rw [handsOver_iff h hne htls hf hwire]
  constructor
  · rintro ⟨k,mode,hk,hcontinues⟩
    obtain ⟨hle,hlong⟩ := firstCut_bounds _ _ _ _ k hk
    rw [hwire, List.length_append] at hlong
    obtain ⟨j,n,hcut,heq⟩ := exists_cutAt bodies (m := k - handshake.length) (by omega)
    have hsum : k = handshake.length + (((bodies.take j).flatMap tlsRecord).length + n) := by omega
    refine ⟨j, n, hcut, hk.trans (congrArg some hsum), ?_⟩
    exact (h.resumes_iff hauth hrandom hignore htagged payload hcut hsum).mp ⟨mode, hcontinues⟩
  · rintro ⟨j,n,hcut,hk,hresumes⟩
    obtain ⟨mode,hcontinues⟩ := (h.resumes_iff hauth hrandom hignore htagged payload hcut rfl).mpr hresumes
    exact ⟨_, mode, hk, hcontinues⟩

/-! ## Tickets and data -/

/-- What the server sends behind its handshake: tickets that the client is to ignore, then data. -/
def serverBodies (mac : Hmac η) (ignore verify : η) (tickets payloads : List Bytes) : List Bytes :=
  (packAll (ignorePayload mac) ignore tickets).1 ++ (packAll (sealPayload mac) verify payloads).1

/-- The reads of the handshake end with the handshake or with a ticket. -/
def CutAtTicket (mac : Hmac η) (ignore : η) (handshake : Bytes) (tickets : List Bytes) (source : Source UInt8) :
    Prop :=
  ∃ j ≤ tickets.length, firstCut 4096 handshake.length 0 source =
    some (handshake.length + (ignoredRecords mac (some ignore) (tickets.take j)).length)

/-- Tags that do not belong together are different: the tag of a data record is not that of the
handshake's chain, and the inside of a record is not a record of one of the chains. -/
structure NoAccident (mac : Hmac η) (ignore verify : η) (tickets payloads : List Bytes) : Prop where
  tags : ∀ j, tickets.length < j → j ≤ tickets.length + payloads.length →
    (((serverBodies mac ignore verify tickets payloads).take j).foldl (hearRecord mac) (ignore, true)).2 = false
  inside : ∀ j n, j ≤ tickets.length → CutAt (serverBodies mac ignore verify tickets payloads) j n → 0 < n →
    ∀ hmac ∈ [(tickets.take j).foldl mac.update ignore, verify], ∀ payload rest,
      (((serverBodies mac ignore verify tickets payloads).drop j).flatMap tlsRecord).drop n ≠
        tlsRecord (mac.first4 (mac.update hmac payload) ++ payload) ++ rest

section
variable (mac : Hmac η) (ignore verify : η) (tickets payloads : List Bytes)

theorem ignorePayload_spec :
    (packAll (ignorePayload mac) ignore tickets).2 = tickets.foldl mac.update ignore ∧
      (packAll (ignorePayload mac) ignore tickets).1.length = tickets.length ∧
      (packAll (ignorePayload mac) ignore tickets).1.foldl (hearRecord mac) (ignore, true) =
        (tickets.foldl mac.update ignore, true) := by
  induction tickets generalizing ignore with
  | nil => exact ⟨rfl, rfl, rfl⟩
  | cons ticket tickets ih =>
    obtain ⟨hstate,hlength,hheard⟩ := ih (mac.update ignore ticket)
    have hfirst : hearRecord mac (ignore, true) (mac.first4 (mac.update ignore ticket) ++ ticket) =
        (mac.update ignore ticket, true) := by
      rw [hearRecord, List.drop_left' (mac.first4_length _), List.take_left' (mac.first4_length _),
        decide_eq_true rfl]
    refine ⟨hstate, congrArg Nat.succ hlength, ?_⟩
    simp only [packAll, ignorePayload, List.singleton_append, List.foldl_cons]
    rw [hfirst]
    exact hheard

theorem sealPayload_length :
    (packAll (sealPayload mac) verify payloads).1.length = payloads.length := by
  induction payloads generalizing verify with
  | nil => rfl
  | cons payload payloads ih => exact congrArg Nat.succ (ih _)

theorem serverBodies_length :
    (serverBodies mac ignore verify tickets payloads).length = tickets.length + payloads.length := by
  rw [serverBodies, List.length_append, (ignorePayload_spec mac ignore tickets).2.1, sealPayload_length]

theorem serverBodies_tagged (h : ∀ payload ∈ tickets ++ payloads, FitsRecord payload) :
    ∀ body ∈ serverBodies mac ignore verify tickets payloads, TaggedBody body := by
  have htagged : ∀ payload ∈ tickets ++ payloads, ∀ hmac, TaggedBody (mac.first4 hmac ++ payload) := by
    intro payload hmem hmac
    refine ⟨?_, sealed_length mac hmac (h payload hmem)⟩
    rw [List.length_append, Hmac.first4_length]
    exact Nat.le_add_right ..
  intro body hbody
  cases List.mem_append.mp hbody with
  | inl hticket =>
    refine forall_packAll (fun ticket hmem hmac a ha => ?_) ignore body hticket
    rw [ignorePayload, List.mem_singleton] at ha
    rw [ha]
    exact htagged ticket (List.mem_append_left _ hmem) _
  | inr hdata =>
    refine forall_packAll (fun payload hmem hmac a ha => ?_) verify body hdata
    rw [sealPayload, List.mem_singleton] at ha
    rw [ha]
    exact htagged payload (List.mem_append_right _ hmem) _

variable {tickets}

/-- The bodies at a ticket. -/
theorem serverBodies_split {j : Nat} (hj : j ≤ tickets.length) :
    (serverBodies mac ignore verify tickets payloads).take j =
        (packAll (ignorePayload mac) ignore (tickets.take j)).1 ∧
      (serverBodies mac ignore verify tickets payloads).drop j =
        serverBodies mac ((tickets.take j).foldl mac.update ignore) verify (tickets.drop j) payloads := by
  have hlength := (ignorePayload_spec mac ignore (tickets.take j)).2.1
  rw [List.length_take, Nat.min_eq_left hj] at hlength
  have hsplit : serverBodies mac ignore verify tickets payloads =
      (packAll (ignorePayload mac) ignore (tickets.take j)).1 ++
        serverBodies mac ((tickets.take j).foldl mac.update ignore) verify (tickets.drop j) payloads := by
    conv_lhs => rw [← List.take_append_drop j tickets]
    rw [serverBodies, serverBodies, packAll_append, (ignorePayload_spec mac ignore (tickets.take j)).1,
      List.append_assoc]
  rw [hsplit]
  exact ⟨List.take_left' hlength, List.drop_left' hlength⟩

theorem serverBodies_take {j : Nat} (hj : j ≤ tickets.length) :
    ((serverBodies mac ignore verify tickets payloads).take j).foldl (hearRecord mac) (ignore, true) =
      ((tickets.take j).foldl mac.update ignore, true) := by
  rw [(serverBodies_split mac ignore verify payloads hj).1]
  exact (ignorePayload_spec mac ignore _).2.2

variable {mac ignore verify payloads}

/-- The first record of the data is not taken for a ticket. -/
theorem NoAccident.first (h : NoAccident mac ignore verify tickets payloads) :
    ∀ first ∈ payloads.head?, mac.first4 (mac.update verify first) ≠
      mac.first4 (mac.update (tickets.foldl mac.update ignore) first) := by
  intro first hmem htag
  cases payloads with
  | nil => cases hmem
  | cons payload payloads =>
    cases hmem
    have hheard := h.tags (tickets.length + 1) (Nat.lt_succ_self _) (by rw [List.length_cons]; omega)
    have htake : (serverBodies mac ignore verify tickets (first :: payloads)).take (tickets.length + 1) =
        (packAll (ignorePayload mac) ignore tickets).1 ++ [mac.first4 (mac.update verify first) ++ first] := by
      have hlength := (ignorePayload_spec mac ignore tickets).2.1
      rw [serverBodies, ← hlength, List.take_length_add_append]
      rfl
    rw [htake, List.foldl_append, (ignorePayload_spec mac ignore tickets).2.2, List.foldl_cons,
      List.foldl_nil, hearRecord, List.drop_left' (mac.first4_length _), List.take_left' (mac.first4_length _),
      decide_eq_true htag] at hheard
    cases hheard

theorem resumes_iff_ticket (env : ShadowTlsEnv η) (h : NoAccident env.mac ignore verify tickets payloads)
    (hfits : ∀ payload ∈ tickets ++ payloads, FitsRecord payload) {j n : Nat}
    (hcut : CutAt (serverBodies env.mac ignore verify tickets payloads) j n) :
    Resumes env (serverBodies env.mac ignore verify tickets payloads) ignore verify payloads.flatten j n ↔
      j ≤ tickets.length ∧ n = 0 := by
  constructor
  · rintro ⟨hheard,dropped,accepted,_,_,hstream,_⟩
    have hj : j ≤ tickets.length := by
      refine Nat.not_lt.mp fun hlt => ?_
      have hle := hcut.1
      rw [serverBodies_length] at hle
      cases (h.tags j hlt hle).symm.trans hheard
    refine ⟨hj, Nat.eq_zero_of_not_pos fun hpos => ?_⟩
    have hinside := h.inside j n hj hcut hpos
    rw [serverBodies_take env.mac ignore verify payloads hj] at hstream
    cases dropped with
    | cons first dropped =>
      refine hinside _ List.mem_cons_self first (ignoredRecords env.mac
        (some (env.mac.update ((tickets.take j).foldl env.mac.update ignore) first)) dropped ++
          (packAll (sealPayload env.mac) verify accepted).1.flatMap tlsRecord) (hstream.trans ?_)
      simp only [ignoredRecords, packAll, ignorePayload, List.singleton_append, List.flatMap_cons,
        List.append_assoc]
    | nil =>
      cases accepted with
      | cons first accepted =>
        refine hinside verify (List.mem_cons_of_mem _ List.mem_cons_self) first ((packAll (sealPayload env.mac)
          (sealPayload env.mac verify first).2 accepted).1.flatMap tlsRecord) (hstream.trans ?_)
        simp only [ignoredRecords, packAll, sealPayload, List.singleton_append, List.flatMap_cons,
          List.flatMap_nil, List.nil_append]
      | nil =>
        obtain ⟨body,hbody,hn⟩ := hcut.2.resolve_left (Nat.ne_of_gt hpos)
        obtain ⟨hlt,rfl⟩ := List.getElem?_eq_some_iff.mp hbody
        rw [List.drop_eq_getElem_cons hlt, List.flatMap_cons] at hstream
        have hlen := congrArg List.length hstream
        simp only [ignoredRecords, packAll, List.flatMap_nil, List.append_nil, List.length_drop,
          List.length_append, List.length_nil] at hlen
        omega
  · rintro ⟨hj,rfl⟩
    rw [Resumes, serverBodies_take env.mac ignore verify payloads hj,
      (serverBodies_split env.mac ignore verify payloads hj).2]
    refine ⟨rfl, tickets.drop j, payloads, fun body hmem => hfits body ?_, rfl, ?_, ?_⟩
    · cases List.mem_append.mp hmem with
      | inl hticket => exact List.mem_append_left _ (List.mem_of_mem_drop hticket)
      | inr hdata => exact List.mem_append_right _ hdata
    · rw [serverBodies, List.flatMap_append]
      rfl
    · rintro ig heq first hmem
      cases heq
      rw [← List.foldl_append, List.take_append_drop]
      exact h.first first hmem

end

/-- The handover is right exactly if the reads of the handshake end where what is left is whole
records of the two chains, with the same payload; accidents of tags apart, that is at the end
of the handshake or of a ticket. -/
theorem shadow_tls_v3_hands_over_iff (env : ShadowTlsEnv η) {password handshake flight : Bytes}
    {s : ShadowTlsV3HandshakeState η} (h : Unwraps env password handshake flight s) {random : Bytes}
    {ignore : η} (hauth : s.authorized = true) (hrandom : s.serverRandom = some random)
    (hignore : s.readHmac = some ignore) {tls : Bytes → Prop}
    (htls : ∀ received, tls received ↔ flight <+: received) {tickets payloads : List Bytes}
    (hfits : ∀ payload ∈ tickets ++ payloads, FitsRecord payload) {source : Source UInt8}
    (hf : Flawless source) (hwire : sourceBytes source = handshake ++
      (serverBodies env.mac ignore (env.verifyHmac password random) tickets payloads).flatMap tlsRecord) :
    (HandsOver env tls (.new source password) payloads.flatten ↔
      ∃ j n, CutAt (serverBodies env.mac ignore (env.verifyHmac password random) tickets payloads) j n ∧
        firstCut 4096 handshake.length 0 source = some (handshake.length +
          ((((serverBodies env.mac ignore (env.verifyHmac password random) tickets payloads).take j).flatMap
            tlsRecord).length + n)) ∧
        Resumes env (serverBodies env.mac ignore (env.verifyHmac password random) tickets payloads) ignore
          (env.verifyHmac password random) payloads.flatten j n) ∧
    (NoAccident env.mac ignore (env.verifyHmac password random) tickets payloads →
      (HandsOver env tls (.new source password) payloads.flatten ↔
        CutAtTicket env.mac ignore handshake tickets source)) := by
  have htagged := serverBodies_tagged env.mac ignore (env.verifyHmac password random) tickets payloads hfits
  have hexact := handsOver_iff_resumes h hauth hrandom hignore htls hf htagged hwire payloads.flatten
  refine ⟨hexact, fun hno => hexact.trans ⟨?_, ?_⟩⟩
  · rintro ⟨j,n,hcut,hk,hresumes⟩
    obtain ⟨hj,rfl⟩ := (resumes_iff_ticket env hno hfits hcut).mp hresumes
    rw [(serverBodies_split env.mac ignore _ payloads hj).1] at hk
    exact ⟨j, hj, hk⟩
  · rintro ⟨j,hj,hk⟩
    have hcut : CutAt (serverBodies env.mac ignore (env.verifyHmac password random) tickets payloads) j 0 := by
      refine ⟨?_, .inl rfl⟩
      rw [serverBodies_length]
      omega
    refine ⟨j, 0, hcut, ?_, (resumes_iff_ticket env hno hfits hcut).mpr ⟨hj, rfl⟩⟩
    rw [(serverBodies_split env.mac ignore _ payloads hj).1]
    exact hk

def checksumEnv : ShadowTlsEnv UInt8 := ⟨ShadowTlsStream.checksum, fun _ => 0, fun _ => Vector.replicate 32 0⟩

/-- A hello that has room for the random and for nothing else. -/
def serverHello : Bytes := [0x16, 0x03, 0x03, 0, 38, 0x02] ++ List.replicate 37 0

def greeted : ShadowTlsV3HandshakeState UInt8 :=
  ⟨[], some (List.replicate 32 0), some 0, some (Vector.replicate 32 0), false, true⟩

theorem serverHello_unwraps : Unwraps checksumEnv [] serverHello serverHello greeted := by
  have hlong : ¬ serverHello.length < 5 := by decide
  have hlen : 5 + be16At serverHello 3 = serverHello.length := by decide +kernel
  have hframe : shadowTlsV3DrainHandshakeFrame checksumEnv (.new []) serverHello = (serverHello, greeted) := by
    decide +kernel
  have hturn : (handshakeRecords checksumEnv).inspect (.new []) serverHello =
      .frame greeted serverHello.length serverHello := by
    rw [handshakeRecords_inspect, handshakeTurn, if_neg hlong, hlen, if_neg (Nat.lt_irrefl _), List.take_length, hframe]
  have hwait : (handshakeRecords checksumEnv).inspect greeted [] = .wait greeted := by
    rw [handshakeRecords_inspect, handshakeTurn, if_pos (by decide)]
  rw [Unwraps, run_frame hturn, List.drop_length, run_wait hwait, Decoded.after, List.append_nil]

/-- A ticket, and a record of data. -/
def oneTicket : List Bytes := serverBodies checksumEnv.mac 0 (checksumEnv.verifyHmac [] (List.replicate 32 0)) [[9]] [[5]]

theorem oneTicket_noAccident :
    NoAccident checksumEnv.mac 0 (checksumEnv.verifyHmac [] (List.replicate 32 0)) [[9]] [[5]] where
  tags j hlow hhigh := by
    obtain rfl : j = 2 := Nat.le_antisymm hhigh hlow
    decide +kernel
  inside j n hj hcut hpos hmac _ payload rest heq := by
    have hbytes : ∀ j < 2, ∀ n < 10, 0 < n → byteAt (((oneTicket.drop j).flatMap tlsRecord).drop n) 0 ≠ 0x17 := by
      decide +kernel
    obtain ⟨body,hbody,hn⟩ := hcut.2.resolve_left (Nat.ne_of_gt hpos)
    have hshort : ∀ body ∈ oneTicket, (tlsRecord body).length = 10 := by decide +kernel
    rw [hshort body (List.mem_of_getElem? hbody)] at hn
    exact hbytes j (Nat.lt_succ_of_le hj) n hn hpos (congrArg (byteAt · 0) heq)

theorem oneTicket_fits : ∀ payload ∈ [[9]] ++ [[5]], FitsRecord payload := by
  simp [FitsRecord]

/-- The handshake ends in one read, the ticket in the next. -/
theorem shadow_tls_v3_hands_over_ticket :
    HandsOver checksumEnv (serverHello <+: ·) (.new [.segment 0x16 (serverHello.tail.take 20), .pending,
      .segment 0 (serverHello.drop 22 ++ tlsRecord [9, 9, 9, 9, 9]),
      .segment 0x17 (tlsRecord [0x58, 0x58, 0x58, 0x58, 5]).tail] []) [5] := by
  refine ((shadow_tls_v3_hands_over_iff checksumEnv serverHello_unwraps rfl rfl rfl (fun _ => Iff.rfl)
    oneTicket_fits ?_ ?_).2 oneTicket_noAccident).mpr ?_
  · simp [Flawless]
  · decide +kernel
  · exact ⟨1, Nat.le_refl _, by decide +kernel⟩

/-- The read that ends the handshake has the first three bytes of the data, too. -/
theorem shadow_tls_v3_handover_loses :
    ¬ ∀ (env : ShadowTlsEnv UInt8) (password handshake flight : Bytes) (s : ShadowTlsV3HandshakeState UInt8)
      (random : Bytes) (ignore : UInt8) (tickets payloads : List Bytes) (source : Source UInt8),
      Unwraps env password handshake flight s → s.authorized = true → s.serverRandom = some random →
      s.readHmac = some ignore → (∀ payload ∈ tickets ++ payloads, FitsRecord payload) → Flawless source →
      sourceBytes source = handshake ++
        (serverBodies env.mac ignore (env.verifyHmac password random) tickets payloads).flatMap tlsRecord →
      HandsOver env (flight <+: ·) (.new source password) payloads.flatten := by
  intro h
  let source : Source UInt8 := [.segment 0x16 (serverHello.tail ++ tlsRecord [9, 9, 9, 9, 9] ++ [0x17, 0x03, 0x03]),
    .segment 0 [5, 0x58, 0x58, 0x58, 0x58, 5]]
  have hf : Flawless source := by simp [Flawless, source]
  have hwire : sourceBytes source = serverHello ++ oneTicket.flatMap tlsRecord := by decide +kernel
  have hover := h checksumEnv [] serverHello serverHello greeted _ 0 [[9]] [[5]] source serverHello_unwraps rfl
    rfl rfl oneTicket_fits hf hwire
  have htagged := serverBodies_tagged checksumEnv.mac 0 (checksumEnv.verifyHmac [] (List.replicate 32 0)) [[9]]
    [[5]] oneTicket_fits
  obtain ⟨j,n,hcut,hk,hresumes⟩ := (handsOver_iff_resumes serverHello_unwraps rfl rfl rfl (fun _ => Iff.rfl) hf
    htagged hwire [5]).mp hover
  obtain ⟨hj,rfl⟩ := (resumes_iff_ticket checksumEnv oneTicket_noAccident oneTicket_fits hcut).mp hresumes
  have hbad : ∀ j ≤ 1, firstCut 4096 serverHello.length 0 source ≠
      some (serverHello.length + (((oneTicket.take j).flatMap tlsRecord).length + 0)) := by decide +kernel
  exact hbad j hj hk

end AtlasKernel.Shadowsocks
