import AtlasKernel.Lib.FrameDecoder
import AtlasKernel.Shadowsocks.ShadowTls

/-! The ShadowTLS record layer in both directions: what the reader makes of the records
that the writer frames, and which records it accepts.
Source: `shadowsocks/transport.rs`. -/
namespace AtlasKernel.Shadowsocks
open AtlasKernel.Lib FrameDecoder
variable {η : Type*}

/-! ## The reader -/

/-- Without `update` the payload is absorbed all the same, the tag is not. -/
def shadowTlsV3VerifyApplicationData (mac : Hmac η) (frame : Bytes) (hmac : η) (update : Bool) :
    Bool × η :=
  if frame.length < 9 ∨ byteAt frame 0 ≠ 0x17 ∨ byteAt frame 1 ≠ 0x03 ∨ byteAt frame 2 ≠ 0x03 then
    (false, hmac)
  else
    let hmac := mac.update hmac (frame.drop 9)
    let expected := mac.first4 hmac
    (decide (slice frame 5 9 = expected), if update then mac.update hmac expected else hmac)

/-- The loop body of `shadow_tls_drain_records` on a whole frame. -/
def shadowTlsDrainFrame (mac : Hmac η) (frame : Bytes) (mode : ShadowTlsMode η) :
    IoResult Bytes × ShadowTlsMode η :=
  match mode with
  | .v3 hmacAdd hmacVerify hmacIgnore =>
    match hmacIgnore.map fun ignore => shadowTlsV3VerifyApplicationData mac frame ignore false with
    | some (true, ignore) => (.ok [], .v3 hmacAdd hmacVerify (some ignore))
    | _ =>
      match shadowTlsV3VerifyApplicationData mac frame hmacVerify true with
      | (false, hmacVerify) =>
        (.error ⟨.invalidData, "ShadowTLS v3 application data verification failed"⟩,
          .v3 hmacAdd hmacVerify none)
      | (true, hmacVerify) => (.ok (frame.drop 9), .v3 hmacAdd hmacVerify none)
  | mode => (.ok (frame.drop 5), mode)

def shadowTlsDrainRecords (mac : Hmac η) (raw output : Bytes) (mode : ShadowTlsMode η)
    (drained : Bool) : IoResult Bool × Bytes × Bytes × ShadowTlsMode η :=
  if _h : raw.length < 5 then (.ok drained, raw, output, mode)
  else if byteAt raw 0 ≠ 0x17 ∨ byteAt raw 1 ≠ 0x03 then
    (.error ⟨.invalidData, "ShadowTLS received a non-application-data record"⟩, raw, output, mode)
  else
    let len := be16At raw 3
    if raw.length < 5 + len then (.ok drained, raw, output, mode)
    else
      match shadowTlsDrainFrame mac (raw.take (5+len)) mode with
      | (.ok out, mode) => shadowTlsDrainRecords mac (raw.drop (5+len)) (output ++ out) mode true
      | (.error err, mode) => (.error err, raw.drop (5+len), output, mode)
termination_by raw.length
decreasing_by rw [List.length_drop]; omega

/-- Reads that hand over one piece after another, each drained at once; the first error ends
them. -/
def shadowTlsDrainPieces (mac : Hmac η) (raw output : Bytes) (mode : ShadowTlsMode η) :
    List Bytes → IoResult Unit × Bytes × Bytes × ShadowTlsMode η
  | [] => (.ok (), raw, output, mode)
  | piece :: pieces =>
    match shadowTlsDrainRecords mac (raw ++ piece) output mode false with
    | (.ok _, raw, output, mode) => shadowTlsDrainPieces mac raw output mode pieces
    | (.error err, raw, output, mode) => (.error err, raw, output, mode)

/-! ## Records as frames -/

/-- The header says application data of TLS. -/
def ApplicationHead (raw : Bytes) : Prop := byteAt raw 0 = 0x17 ∧ byteAt raw 1 = 0x03

instance (raw : Bytes) : Decidable (ApplicationHead raw) := inferInstanceAs (Decidable (_ ∧ _))

/-- The record at the front of the buffer. -/
def shadowTlsTurn (mac : Hmac η) (mode : ShadowTlsMode η) (raw : Bytes) :
    Verdict (ShadowTlsMode η) UInt8 UInt8 IoError :=
  if raw.length < 5 then .wait mode
  else if ¬ ApplicationHead raw then
    .fault mode raw ⟨.invalidData, "ShadowTLS received a non-application-data record"⟩
  else if raw.length < 5 + be16At raw 3 then .wait mode
  else
    match shadowTlsDrainFrame mac (raw.take (5 + be16At raw 3)) mode with
    | (.ok out, mode) => .frame mode (5 + be16At raw 3) out
    | (.error err, mode) => .fault mode (raw.drop (5 + be16At raw 3)) err

theorem shadowTlsTurn_cases (mac : Hmac η) (mode : ShadowTlsMode η) (raw : Bytes) :
    (shadowTlsTurn mac mode raw = .wait mode ∧
      (raw.length < 5 ∨ ApplicationHead raw ∧ raw.length < 5 + be16At raw 3)) ∨
    (5 ≤ raw.length ∧ ¬ ApplicationHead raw ∧ shadowTlsTurn mac mode raw =
      .fault mode raw ⟨.invalidData, "ShadowTLS received a non-application-data record"⟩) ∨
    (ApplicationHead raw ∧ 5 + be16At raw 3 ≤ raw.length ∧
      ((∃ out mode', shadowTlsDrainFrame mac (raw.take (5 + be16At raw 3)) mode = (.ok out, mode') ∧
        shadowTlsTurn mac mode raw = .frame mode' (5 + be16At raw 3) out) ∨
      (∃ err mode', shadowTlsDrainFrame mac (raw.take (5 + be16At raw 3)) mode =
          (.error err, mode') ∧
        shadowTlsTurn mac mode raw = .fault mode' (raw.drop (5 + be16At raw 3)) err))) := by
  rw [shadowTlsTurn]
  split
  case isTrue hshort => exact .inl ⟨rfl, .inl hshort⟩
  case isFalse hlong =>
    split
    case isTrue hhead => exact .inr (.inl ⟨Nat.not_lt.mp hlong, hhead, rfl⟩)
    case isFalse hhead =>
      split
      case isTrue hwait => exact .inl ⟨rfl, .inr ⟨not_not.mp hhead, hwait⟩⟩
      case isFalse hwhole =>
        refine .inr (.inr ⟨not_not.mp hhead, Nat.not_lt.mp hwhole, ?_⟩)
        cases hframe : shadowTlsDrainFrame mac (raw.take (5 + be16At raw 3)) mode with
        | mk r mode' =>
          cases r with
          | ok out => exact .inl ⟨out, mode', rfl, rfl⟩
          | error err => exact .inr ⟨err, mode', rfl, rfl⟩

theorem head_append {raw : Bytes} (h : 5 ≤ raw.length) (more : Bytes) :
    (ApplicationHead (raw ++ more) ↔ ApplicationHead raw) ∧
      be16At (raw ++ more) 3 = be16At raw 3 := by
  rw [ApplicationHead, ApplicationHead, be16At, be16At, byteAt_append (by omega),
    byteAt_append (by omega), byteAt_append (by omega), byteAt_append (by omega)]
  exact ⟨Iff.rfl, rfl⟩

theorem turn_bad (mac : Hmac η) (mode : ShadowTlsMode η) {raw : Bytes} (h : 5 ≤ raw.length)
    (hhead : ¬ ApplicationHead raw) : shadowTlsTurn mac mode raw =
      .fault mode raw ⟨.invalidData, "ShadowTLS received a non-application-data record"⟩ := by
  rw [shadowTlsTurn, if_neg (Nat.not_lt.mpr h), if_pos hhead]

/-- A whole record is treated the same whatever comes behind it. -/
theorem turn_append (mac : Hmac η) (mode : ShadowTlsMode η) {raw : Bytes} (hhead : ApplicationHead raw)
    (hle : 5 + be16At raw 3 ≤ raw.length) (more : Bytes) :
    shadowTlsTurn mac mode (raw ++ more) =
      match shadowTlsDrainFrame mac (raw.take (5 + be16At raw 3)) mode with
      | (.ok out, mode) => .frame mode (5 + be16At raw 3) out
      | (.error err, mode) => .fault mode (raw.drop (5 + be16At raw 3) ++ more) err := by
  have hfive : 5 ≤ raw.length := (Nat.le_add_right ..).trans hle
  obtain ⟨hhead',hlen⟩ := head_append hfive more
  have hlong : ¬ (raw ++ more).length < 5 + be16At raw 3 := by
    rw [List.length_append]
    omega
  rw [shadowTlsTurn, hlen, if_neg (by rw [List.length_append]; omega),
    if_neg (not_not.mpr (hhead'.mpr hhead)), if_neg hlong, List.take_append_of_le_length hle,
    List.drop_append_of_le_length hle]

def shadowTlsRecords (mac : Hmac η) : FrameDecoder (ShadowTlsMode η) UInt8 UInt8 IoError where
  inspect := shadowTlsTurn mac
  frame_fits := by
    intro mode raw mode' n out h
    obtain ⟨hwait,_⟩ | ⟨_,_,hbad⟩ | ⟨_,hle,⟨out',m,_,hframe⟩ | ⟨err,m,_,hfault⟩⟩ :=
      shadowTlsTurn_cases mac mode raw
    · cases hwait.symm.trans h
    · cases hbad.symm.trans h
    · cases hframe.symm.trans h
      exact ⟨Nat.add_pos_left (by decide) _, hle⟩
    · cases hfault.symm.trans h
  frame_stable := by
    intro mode raw mode' n out h more
    obtain ⟨hwait,_⟩ | ⟨_,_,hbad⟩ | ⟨hhead,hle,⟨out',m,hdrain,hframe⟩ | ⟨err,m,_,hfault⟩⟩ :=
      shadowTlsTurn_cases mac mode raw
    · cases hwait.symm.trans h
    · cases hbad.symm.trans h
    · cases hframe.symm.trans h
      rw [turn_append mac mode hhead hle, hdrain]
    · cases hfault.symm.trans h
  fault_stable := by
    intro mode raw mode' rest e h more
    obtain ⟨hwait,_⟩ | ⟨hfive,hhead,hbad⟩ | ⟨hhead,hle,⟨out',m,_,hframe⟩ | ⟨err,m,hdrain,hfault⟩⟩ :=
      shadowTlsTurn_cases mac mode raw
    · cases hwait.symm.trans h
    · cases hbad.symm.trans h
      refine ⟨_, turn_bad mac mode ?_ ?_⟩
      · rw [List.length_append]
        omega
      · rwa [(head_append hfive more).1]
    · cases hframe.symm.trans h
    · cases hfault.symm.trans h
      exact ⟨_, by rw [turn_append mac mode hhead hle, hdrain]⟩
  wait_stable := by
    intro mode raw mode' h more
    obtain ⟨hwait,_⟩ | ⟨_,_,hbad⟩ | ⟨_,_,⟨out',m,_,hframe⟩ | ⟨err,m,_,hfault⟩⟩ :=
      shadowTlsTurn_cases mac mode raw
    · cases hwait.symm.trans h
      rfl
    · cases hbad.symm.trans h
    · cases hframe.symm.trans h
    · cases hfault.symm.trans h

@[simp] theorem shadowTlsRecords_inspect (mac : Hmac η) (mode : ShadowTlsMode η) (raw : Bytes) :
    (shadowTlsRecords mac).inspect mode raw = shadowTlsTurn mac mode raw := rfl

theorem run_nil (mac : Hmac η) (mode : ShadowTlsMode η) :
    (shadowTlsRecords mac).run mode [] = ⟨mode, [], [], none⟩ :=
  run_wait (show shadowTlsTurn mac mode [] = .wait mode from rfl)

/-- What a decoder's fault is to the caller. -/
def faultResult (fault : Option IoError) : IoResult Unit := fault.elim (.ok ()) .error

theorem faultResult_ok {fault : Option IoError} (h : faultResult fault = .ok ()) : fault = none := by
  cases fault with
  | none => rfl
  | some err => cases h

/-- The loop is the decoder's run. -/
theorem shadowTlsDrainRecords_run (mac : Hmac η) (raw output : Bytes) (mode : ShadowTlsMode η)
    (drained : Bool) :
    (shadowTlsDrainRecords mac raw output mode drained).2 =
      (((shadowTlsRecords mac).run mode raw).rest, output ++ ((shadowTlsRecords mac).run mode raw).out,
        ((shadowTlsRecords mac).run mode raw).state) ∧
    ((shadowTlsDrainRecords mac raw output mode drained).1.map fun _ => ()) =
      faultResult ((shadowTlsRecords mac).run mode raw).fault := by
  induction raw, output, mode, drained using shadowTlsDrainRecords.induct mac with
  | case1 raw output mode drained hshort =>
    have hturn : shadowTlsTurn mac mode raw = .wait mode := by rw [shadowTlsTurn, if_pos hshort]
    rw [shadowTlsDrainRecords, dif_pos hshort, run_wait hturn, List.append_nil]
    exact ⟨rfl, rfl⟩
  | case2 raw output mode drained hlong hhead =>
    rw [shadowTlsDrainRecords, dif_neg hlong, if_pos hhead,
      run_fault (turn_bad mac mode (Nat.not_lt.mp hlong) (not_and_or.mpr hhead)), List.append_nil]
    exact ⟨rfl, rfl⟩
  | case3 raw output mode drained hlong hhead len hwait =>
    have hgood : ¬ ¬ ApplicationHead raw := fun h => hhead (not_and_or.mp h)
    have hturn : shadowTlsTurn mac mode raw = .wait mode := by
      rw [shadowTlsTurn, if_neg hlong, if_neg hgood, if_pos hwait]
    rw [shadowTlsDrainRecords, dif_neg hlong, if_neg hhead]
    dsimp only
    rw [if_pos hwait, run_wait hturn, List.append_nil]
    exact ⟨rfl, rfl⟩
  | case4 raw output mode drained hlong hhead len hwhole out mode' hdrain ih =>
    have hgood : ¬ ¬ ApplicationHead raw := fun h => hhead (not_and_or.mp h)
    have hturn : shadowTlsTurn mac mode raw = .frame mode' (5 + len) out := by
      rw [shadowTlsTurn, if_neg hlong, if_neg hgood, if_neg hwhole, hdrain]
    obtain ⟨hstate,hresult⟩ := ih
    rw [shadowTlsDrainRecords, dif_neg hlong, if_neg hhead]
    dsimp only
    rw [if_neg hwhole, hdrain, run_frame hturn]
    refine ⟨hstate.trans ?_, hresult⟩
    rw [Decoded.after_out, List.append_assoc]
    rfl
  | case5 raw output mode drained hlong hhead len hwhole err mode' hdrain =>
    have hgood : ¬ ¬ ApplicationHead raw := fun h => hhead (not_and_or.mp h)
    have hturn : shadowTlsTurn mac mode raw = .fault mode' (raw.drop (5 + len)) err := by
      rw [shadowTlsTurn, if_neg hlong, if_neg hgood, if_neg hwhole, hdrain]
    rw [shadowTlsDrainRecords, dif_neg hlong, if_neg hhead]
    dsimp only
    rw [if_neg hwhole, hdrain, run_fault hturn, List.append_nil]
    exact ⟨rfl, rfl⟩

/-- The flag is not lost, and without it nothing has come out. -/
theorem shadowTlsDrainRecords_flag (mac : Hmac η) (raw output : Bytes) (mode : ShadowTlsMode η)
    (drained : Bool) :
    (drained = true → (shadowTlsDrainRecords mac raw output mode drained).1 ≠ .ok false) ∧
    ((shadowTlsDrainRecords mac raw output mode drained).1 = .ok false →
      ((shadowTlsRecords mac).run mode raw).out = []) := by
  induction raw, output, mode, drained using shadowTlsDrainRecords.induct mac with
  | case1 raw output mode drained hshort =>
    have hturn : shadowTlsTurn mac mode raw = .wait mode := by rw [shadowTlsTurn, if_pos hshort]
    rw [shadowTlsDrainRecords, dif_pos hshort, run_wait hturn]
    exact ⟨fun htrue h => (by cases htrue; cases h), fun _ => rfl⟩
  | case2 raw output mode drained hlong hhead =>
    rw [shadowTlsDrainRecords, dif_neg hlong, if_pos hhead]
    exact ⟨fun _ h => (by cases h), fun h => by cases h⟩
  | case3 raw output mode drained hlong hhead len hwait =>
    have hgood : ¬ ¬ ApplicationHead raw := fun h => hhead (not_and_or.mp h)
    have hturn : shadowTlsTurn mac mode raw = .wait mode := by
      rw [shadowTlsTurn, if_neg hlong, if_neg hgood, if_pos hwait]
    rw [shadowTlsDrainRecords, dif_neg hlong, if_neg hhead]
    dsimp only
    rw [if_pos hwait, run_wait hturn]
    exact ⟨fun htrue h => (by cases htrue; cases h), fun _ => rfl⟩
  | case4 raw output mode drained hlong hhead len hwhole out mode' hdrain ih =>
    rw [shadowTlsDrainRecords, dif_neg hlong, if_neg hhead]
    dsimp only
    rw [if_neg hwhole, hdrain]
    exact ⟨fun _ => ih.1 rfl, fun h => absurd h (ih.1 rfl)⟩
  | case5 raw output mode drained hlong hhead len hwhole err mode' hdrain =>
    rw [shadowTlsDrainRecords, dif_neg hlong, if_neg hhead]
    dsimp only
    rw [if_neg hwhole, hdrain]
    exact ⟨fun _ h => (by cases h), fun h => by cases h⟩

/-- Pieces drained one after another are pieces fed to the decoder. -/
theorem shadowTlsDrainPieces_feed (mac : Hmac η) (raw output : Bytes) (mode : ShadowTlsMode η)
    (pieces : List Bytes) :
    shadowTlsDrainPieces mac raw output mode pieces =
      let d := (shadowTlsRecords mac).feed mode raw pieces
      (faultResult d.fault, d.rest, output ++ d.out, d.state) := by
  induction pieces generalizing raw output mode with
  | nil =>
    rw [shadowTlsDrainPieces, feed]
    simp only [List.append_nil, faultResult, Option.elim_none]
  | cons piece pieces ih =>
    obtain ⟨hstate,hresult⟩ := shadowTlsDrainRecords_run mac (raw ++ piece) output mode false
    rw [shadowTlsDrainPieces, feed]
    generalize shadowTlsDrainRecords mac (raw ++ piece) output mode false = r at hstate hresult
    obtain ⟨result,rest⟩ := r
    dsimp only at hstate hresult ⊢
    subst hstate
    cases hfault : ((shadowTlsRecords mac).run mode (raw ++ piece)).fault with
    | none =>
      rw [hfault] at hresult
      cases result with
      | error err => cases hresult
      | ok drained =>
        dsimp only
        rw [ih]
        simp only [Decoded.after, List.append_assoc]
    | some err =>
      rw [hfault] at hresult
      cases result with
      | ok drained => cases hresult
      | error err' =>
        cases hresult
        dsimp only
        rw [hfault]
        rfl

/-- Cuts make no difference. -/
theorem shadowTlsDrainPieces_flatten (mac : Hmac η) (mode : ShadowTlsMode η) (pieces : List Bytes) :
    let d := (shadowTlsRecords mac).run mode pieces.flatten
    (shadowTlsDrainPieces mac [] [] mode pieces).1 = faultResult d.fault ∧
      (shadowTlsDrainPieces mac [] [] mode pieces).2.2.1 = d.out ∧
      (d.fault = none → shadowTlsDrainPieces mac [] [] mode pieces = (.ok (), d.rest, d.out, d.state)) := by
  obtain ⟨hfault,hout,hsame⟩ := (shadowTlsRecords mac).feed_flatten mode [] rfl pieces
  rw [List.nil_append] at hfault hout hsame
  dsimp only
  rw [shadowTlsDrainPieces_feed, ← hfault, ← hout]
  refine ⟨rfl, rfl, fun hnone => ?_⟩
  rw [← hsame hnone]
  dsimp only
  rw [hnone]
  rfl

/-! ## Sealed records -/

def tlsRecord (body : Bytes) : Bytes := [0x17, 0x03, 0x03] ++ be16 body.length ++ body

/-- The body of a version 3 record, and the HMAC behind it. -/
def sealPayload (mac : Hmac η) (hmac : η) (payload : Bytes) : List Bytes × η :=
  let hmac := mac.update hmac payload
  ([mac.first4 hmac ++ payload], mac.update hmac (mac.first4 hmac))

theorem Hmac.first4_length (mac : Hmac η) (hmac : η) : (mac.first4 hmac).length = 4 := by
  rw [Hmac.first4, List.length_take, Vector.length_toList]
  rfl

theorem shadowTlsPushV3Record_seal (mac : Hmac η) (hmac : η) (payload : Bytes) :
    shadowTlsPushV3Record mac hmac payload =
      ((sealPayload mac hmac payload).1.flatMap tlsRecord, (sealPayload mac hmac payload).2) := by
  simp only [shadowTlsPushV3Record, sealPayload, tlsRecord, List.flatMap_cons, List.flatMap_nil,
    List.append_nil, List.length_append, Hmac.first4_length, List.append_assoc]

/-- The length field has room for the tag, too. -/
def FitsRecord (payload : Bytes) : Prop := payload.length < 65532

theorem fitsRecord_of_le {payload : Bytes} (h : payload.length ≤ maxRecordPayload) : FitsRecord payload :=
  Nat.lt_of_le_of_lt h (by decide)

/-- A payload as the records carry it. -/
def recordChunks (payload : Bytes) : List Bytes :=
  if _h : payload = [] then []
  else payload.take maxRecordPayload :: recordChunks (payload.drop maxRecordPayload)
termination_by payload.length
decreasing_by
  have hpos := List.length_pos_iff.mpr _h
  rw [List.length_drop, maxRecordPayload]
  omega

theorem recordChunks_spec (payload : Bytes) :
    (recordChunks payload).flatten = payload ∧ ∀ chunk ∈ recordChunks payload, FitsRecord chunk := by
  induction payload using recordChunks.induct with
  | case1 =>
    rw [recordChunks, dif_pos rfl]
    exact ⟨rfl, fun chunk hmem => by cases hmem⟩
  | case2 payload hne ih =>
    rw [recordChunks, dif_neg hne]
    refine ⟨?_, fun chunk hmem => ?_⟩
    · rw [List.flatten_cons, ih.1, List.take_append_drop]
    · cases List.mem_cons.mp hmem with
      | inl heq =>
        rw [heq]
        exact fitsRecord_of_le (List.length_take_le ..)
      | inr htail => exact ih.2 chunk htail

/-- The bodies of the records that one write is framed in. -/
def sealWrite (mac : Hmac η) (hmac : η) (payload : Bytes) : List Bytes × η :=
  -- an empty write is framed outside the chain, without a tag
  if payload = [] then ([[]], hmac) else packAll (sealPayload mac) hmac (recordChunks payload)

variable (mac : Hmac η)

theorem encodeLoop_v3 (hmac verify : η) (ignore : Option η) (payload : Bytes) :
    encodeLoop mac (.v3 hmac verify ignore) none payload =
      ((packAll (sealPayload mac) hmac (recordChunks payload)).1.flatMap tlsRecord,
        .v3 (packAll (sealPayload mac) hmac (recordChunks payload)).2 verify ignore) := by
  induction payload using recordChunks.induct generalizing hmac with
  | case1 =>
    rw [encodeLoop, dif_pos rfl, recordChunks, dif_pos rfl]
    rfl
  | case2 payload hne ih =>
    have htake : payload.take (min maxRecordPayload payload.length) = payload.take maxRecordPayload :=
      List.take_eq_take_min.symm
    have hdrop : payload.drop (min maxRecordPayload payload.length) = payload.drop maxRecordPayload :=
      List.drop_eq_drop_min.symm
    rw [encodeLoop, dif_neg hne, recordChunks, dif_neg hne]
    dsimp only [Option.map_none, Option.getD_none, Nat.sub_zero]
    rw [htake, hdrop, shadowTlsPushV3Record_seal, ih]
    simp only [packAll, List.flatMap_append]

theorem shadowTlsEncodeRecords_v3 (hmac verify : η) (ignore : Option η) (payload : Bytes) :
    shadowTlsEncodeRecords mac payload (.v3 hmac verify ignore) =
      ((sealWrite mac hmac payload).1.flatMap tlsRecord,
        .v3 (sealWrite mac hmac payload).2 verify ignore) := by
  simp only [shadowTlsEncodeRecords, sealWrite]
  split
  · rfl
  · exact encodeLoop_v3 ..

theorem frames_v3 (hmac verify : η) (ignore : Option η) (writes : List Bytes) :
    ShadowTlsStream.frames mac (.v3 hmac verify ignore) writes =
      ((packAll (sealWrite mac) hmac writes).1.flatMap tlsRecord,
        .v3 (packAll (sealWrite mac) hmac writes).2 verify ignore) := by
  induction writes generalizing hmac with
  | nil => rfl
  | cons payload writes ih =>
    rw [ShadowTlsStream.frames, shadowTlsEncodeRecords_v3]
    dsimp only
    rw [ih]
    simp only [packAll, List.flatMap_append]

/-! ## Reading one record -/

theorem tlsRecord_length (body : Bytes) : (tlsRecord body).length = 5 + body.length := by
  simp only [tlsRecord, List.length_append, List.length_cons, List.length_nil, be16_length]

theorem turn_record (mode : ShadowTlsMode η) {body : Bytes} (h : body.length < 65536) (rest : Bytes) :
    shadowTlsTurn mac mode (tlsRecord body ++ rest) =
      match shadowTlsDrainFrame mac (tlsRecord body) mode with
      | (.ok out, mode) => .frame mode (tlsRecord body).length out
      | (.error err, mode) => .fault mode rest err := by
  have hlen : 5 + be16At (tlsRecord body) 3 = (tlsRecord body).length := by
    have hfield : be16At (tlsRecord body) 3 = body.length := ofBe16_of_lt h
    rw [hfield, tlsRecord_length]
  have hhead : ApplicationHead (tlsRecord body) := ⟨rfl, rfl⟩
  rw [turn_append mac mode hhead (Nat.le_of_eq hlen), hlen, List.take_length, List.drop_length,
    List.nil_append]

theorem drop_record {tag : Bytes} (htag : tag.length = 4) (payload : Bytes) :
    (tlsRecord (tag ++ payload)).drop 9 = payload := by
  rw [tlsRecord, ← List.append_assoc]
  refine List.drop_left' ?_
  simp only [List.length_append, List.length_cons, List.length_nil, be16_length, htag]

theorem slice_record {tag : Bytes} (htag : tag.length = 4) (payload : Bytes) :
    slice (tlsRecord (tag ++ payload)) 5 9 = tag := by
  have hmiddle := slice_middle ([0x17, 0x03, 0x03] ++ be16 (tag ++ payload).length) tag payload
  rw [htag] at hmiddle
  exact hmiddle

theorem verify_record {tag : Bytes} (htag : tag.length = 4) (payload : Bytes) (hmac : η)
    (update : Bool) :
    shadowTlsV3VerifyApplicationData mac (tlsRecord (tag ++ payload)) hmac update =
      (decide (tag = mac.first4 (mac.update hmac payload)),
        if update then mac.update (mac.update hmac payload) (mac.first4 (mac.update hmac payload))
        else mac.update hmac payload) := by
  have hlong : ¬ ((tlsRecord (tag ++ payload)).length < 9 ∨
      byteAt (tlsRecord (tag ++ payload)) 0 ≠ 0x17 ∨ byteAt (tlsRecord (tag ++ payload)) 1 ≠ 0x03 ∨
      byteAt (tlsRecord (tag ++ payload)) 2 ≠ 0x03) := by
    rintro (hlt | hne | hne | hne)
    · rw [tlsRecord_length, List.length_append, htag] at hlt
      omega
    · exact hne rfl
    · exact hne rfl
    · exact hne rfl
  rw [shadowTlsV3VerifyApplicationData, if_neg hlong, drop_record htag, slice_record htag]

/-- What verifies is a record that has been sealed with the same HMAC. -/
theorem verify_true {frame : Bytes} (hframe : frame.length = 5 + be16At frame 3) {hmac hmac' : η}
    {update : Bool} (h : shadowTlsV3VerifyApplicationData mac frame hmac update = (true, hmac')) :
    ∃ payload, frame = tlsRecord (mac.first4 (mac.update hmac payload) ++ payload) ∧
      hmac' = if update then (sealPayload mac hmac payload).2 else mac.update hmac payload := by
  rw [shadowTlsV3VerifyApplicationData] at h
  split at h
  case isTrue => cases h
  case isFalse hlong =>
    obtain ⟨hnine,h0,h1,h2⟩ : 9 ≤ frame.length ∧ byteAt frame 0 = 0x17 ∧ byteAt frame 1 = 0x03 ∧
        byteAt frame 2 = 0x03 := by
      simp only [not_or, not_not, Nat.not_lt] at hlong
      exact hlong
    obtain ⟨htag,rfl⟩ := Prod.mk.inj h
    refine ⟨frame.drop 9, ?_, rfl⟩
    have hbody : (frame.drop 5).length = ofBe16 (byteAt frame 3) (byteAt frame 4) := by
      rw [List.length_drop, hframe, Nat.add_sub_cancel_left]
      rfl
    have hfront : frame.take 5 = [0x17, 0x03, 0x03] ++ be16 (frame.drop 5).length := by
      have hhead : ([0x17, 0x03, 0x03] : Bytes) =
          [byteAt frame 0, byteAt frame 1, byteAt frame 2] := by rw [h0, h1, h2]
      rw [take_eq_map_byteAt (by omega), hbody, be16_ofBe16, hhead]
      rfl
    have hsplit : slice frame 5 9 ++ frame.drop 9 = frame.drop 5 := by
      rw [slice, List.drop_take, ← List.drop_drop (i := 4) (j := 5), List.take_append_drop]
    rw [← of_decide_eq_true htag, hsplit, tlsRecord, ← hfront, List.take_append_drop]

/-! ## Round trip -/

variable (add verify : η)

/-- A frame that is let through is ignored, or accepted. -/
theorem drainFrame_ok {frame out : Bytes} {ignore : Option η} {mode : ShadowTlsMode η}
    (h : shadowTlsDrainFrame mac frame (.v3 add verify ignore) = (.ok out, mode)) :
    (∃ ig ig', ignore = some ig ∧ shadowTlsV3VerifyApplicationData mac frame ig false = (true, ig') ∧
      out = [] ∧ mode = .v3 add verify (some ig')) ∨
    ∃ verify', shadowTlsV3VerifyApplicationData mac frame verify true = (true, verify') ∧
      out = frame.drop 9 ∧ mode = .v3 add verify' none := by
  rw [shadowTlsDrainFrame] at h
  split at h
  case h_1 ig' hignored =>
    obtain ⟨ig,hig,hverify⟩ := Option.map_eq_some_iff.mp hignored
    cases h
    exact .inl ⟨ig, ig', hig, hverify, rfl, rfl⟩
  case h_2 =>
    split at h
    case h_1 => cases h
    case h_2 verify' hverify =>
      cases h
      exact .inr ⟨verify', hverify, rfl, rfl⟩

theorem drainFrame_sealed (hmac : η) (payload : Bytes) :
    shadowTlsDrainFrame mac (tlsRecord (mac.first4 (mac.update hmac payload) ++ payload))
      (.v3 add hmac none) = (.ok payload, .v3 add (sealPayload mac hmac payload).2 none) := by
  rw [shadowTlsDrainFrame]
  dsimp only [Option.map_none]
  rw [verify_record mac (mac.first4_length _), decide_eq_true rfl, drop_record (mac.first4_length _)]
  rfl

/-- While records are ignored, one that the other HMAC verifies is dropped. -/
theorem drainFrame_ignoring {tag : Bytes} (htag : tag.length = 4) (payload : Bytes) (ignore : η) :
    shadowTlsDrainFrame mac (tlsRecord (tag ++ payload)) (.v3 add verify (some ignore)) =
      if tag = mac.first4 (mac.update ignore payload) then
        (.ok [], .v3 add verify (some (mac.update ignore payload)))
      else shadowTlsDrainFrame mac (tlsRecord (tag ++ payload)) (.v3 add verify none) := by
  rw [shadowTlsDrainFrame, Option.map_some, verify_record mac htag]
  by_cases htagged : tag = mac.first4 (mac.update ignore payload)
  · rw [decide_eq_true htagged, if_pos htagged]
    rfl
  · rw [decide_eq_false htagged, if_neg htagged, shadowTlsDrainFrame]
    rfl

theorem drainFrame_empty (ignore : Option η) :
    shadowTlsDrainFrame mac (tlsRecord []) (.v3 add verify ignore) =
      (.error ⟨.invalidData, "ShadowTLS v3 application data verification failed"⟩,
        .v3 add verify none) := by
  cases ignore <;> rfl

theorem run_record_ok {mode mode' : ShadowTlsMode η} {body out : Bytes} (h : body.length < 65536)
    (hdrain : shadowTlsDrainFrame mac (tlsRecord body) mode = (.ok out, mode')) (rest : Bytes) :
    (shadowTlsRecords mac).run mode (tlsRecord body ++ rest) =
      ((shadowTlsRecords mac).run mode' rest).after out := by
  have hturn : shadowTlsTurn mac mode (tlsRecord body ++ rest) =
      .frame mode' (tlsRecord body).length out := by rw [turn_record mac mode h, hdrain]
  rw [run_frame hturn, List.drop_left]

theorem run_record_error {mode mode' : ShadowTlsMode η} {body : Bytes} {err : IoError}
    (h : body.length < 65536)
    (hdrain : shadowTlsDrainFrame mac (tlsRecord body) mode = (.error err, mode')) (rest : Bytes) :
    (shadowTlsRecords mac).run mode (tlsRecord body ++ rest) = ⟨mode', rest, [], some err⟩ := by
  have hturn : shadowTlsTurn mac mode (tlsRecord body ++ rest) = .fault mode' rest err := by
    rw [turn_record mac mode h, hdrain]
  rw [run_fault hturn]

theorem sealed_length (hmac : η) {payload : Bytes} (h : FitsRecord payload) :
    (mac.first4 hmac ++ payload).length < 65536 := by
  rw [FitsRecord] at h
  rw [List.length_append, Hmac.first4_length]
  omega

/-- With a record that is not ignored the phase of ignored records is over. -/
theorem run_not_tagged {tag payload : Bytes} (htag : tag.length = 4)
    (hfits : (tag ++ payload).length < 65536) {ignore : η} (h : tag ≠ mac.first4 (mac.update ignore payload))
    (rest : Bytes) :
    (shadowTlsRecords mac).run (.v3 add verify (some ignore)) (tlsRecord (tag ++ payload) ++ rest) =
      (shadowTlsRecords mac).run (.v3 add verify none) (tlsRecord (tag ++ payload) ++ rest) := by
  refine run_congr ?_
  rw [shadowTlsRecords_inspect, shadowTlsRecords_inspect, turn_record mac _ hfits, turn_record mac _ hfits,
    drainFrame_ignoring mac add verify htag, if_neg h]

/-- Sealed records are read one after another, and the two HMACs stay in step. -/
theorem run_sealed (hmac : η) (payloads : List Bytes) (h : ∀ payload ∈ payloads, FitsRecord payload)
    (rest : Bytes) :
    (shadowTlsRecords mac).run (.v3 add hmac none)
        ((packAll (sealPayload mac) hmac payloads).1.flatMap tlsRecord ++ rest) =
      ((shadowTlsRecords mac).run (.v3 add (packAll (sealPayload mac) hmac payloads).2 none) rest).after
        payloads.flatten := by
  induction payloads generalizing hmac with
  | nil => rfl
  | cons payload payloads ih =>
    have hrest := ih (sealPayload mac hmac payload).2 fun p hp => h p (List.mem_cons_of_mem _ hp)
    simp only [packAll, List.flatMap_append, List.append_assoc, List.flatten_cons]
    rw [← Decoded.after_after, ← hrest]
    simp only [sealPayload, List.flatMap_cons, List.flatMap_nil, List.append_nil]
    exact run_record_ok mac (sealed_length mac _ (h payload List.mem_cons_self)) (drainFrame_sealed mac add hmac payload) _

/-- Writes that are not empty are read back in whole. -/
theorem run_writes (hmac : η) (writes : List Bytes) (h : ∀ payload ∈ writes, payload ≠ [])
    (rest : Bytes) :
    (shadowTlsRecords mac).run (.v3 add hmac none)
        ((packAll (sealWrite mac) hmac writes).1.flatMap tlsRecord ++ rest) =
      ((shadowTlsRecords mac).run (.v3 add (packAll (sealWrite mac) hmac writes).2 none) rest).after
        writes.flatten := by
  induction writes generalizing hmac with
  | nil => rfl
  | cons payload writes ih =>
    obtain ⟨hflatten,hlength⟩ := recordChunks_spec payload
    have hne := h payload List.mem_cons_self
    have hrest := ih (sealWrite mac hmac payload).2 fun p hp => h p (List.mem_cons_of_mem _ hp)
    simp only [packAll, List.flatMap_append, List.append_assoc, List.flatten_cons]
    rw [← Decoded.after_after, ← hrest, sealWrite, if_neg hne, run_sealed mac add hmac _ hlength, hflatten]

/-- A record without a tag ends the reading. -/
theorem run_untagged (ignore : Option η) (rest : Bytes) :
    (shadowTlsRecords mac).run (.v3 add verify ignore) (tlsRecord [] ++ rest) =
      ⟨.v3 add verify none, rest, [],
        some ⟨.invalidData, "ShadowTLS v3 application data verification failed"⟩⟩ :=
  run_record_error mac (by decide) (drainFrame_empty mac add verify ignore) rest

/-- No more comes out than the records carry. -/
theorem run_length (bodies : List Bytes) (h : ∀ body ∈ bodies, body.length < 65536)
    (verify : η) (ignore : Option η) :
    ((shadowTlsRecords mac).run (.v3 add verify ignore) (bodies.flatMap tlsRecord)).out.length ≤
      (bodies.flatMap (·.drop 4)).length := by
  induction bodies generalizing verify ignore with
  | nil =>
    rw [List.flatMap_nil, run_nil]
    exact Nat.zero_le _
  | cons body bodies ih =>
    have hbody := h body List.mem_cons_self
    have hrest := ih fun b hb => h b (List.mem_cons_of_mem _ hb)
    rw [List.flatMap_cons, List.flatMap_cons, List.length_append]
    cases hdrain : shadowTlsDrainFrame mac (tlsRecord body) (.v3 add verify ignore) with
    | mk r mode =>
      cases r with
      | error err =>
        rw [run_record_error mac hbody hdrain]
        exact Nat.zero_le _
      | ok out =>
        rw [run_record_ok mac hbody hdrain, Decoded.after_out, List.length_append]
        obtain ⟨ig,ig',_,_,rfl,rfl⟩ | ⟨verify',_,rfl,rfl⟩ := drainFrame_ok mac add verify hdrain
        · exact Nat.add_le_add (Nat.zero_le _) (hrest ..)
        · refine Nat.add_le_add ?_ (hrest ..)
          rw [List.length_drop, List.length_drop, tlsRecord_length]
          omega

/-- The first record is one that the receiver would still ignore: its tag is that of the
other HMAC, too. -/
def IgnoresFirst (mac : Hmac η) (hmac : η) (ignore : Option η) (writes : List Bytes) : Prop :=
  ∃ ig ∈ ignore, ∃ payload ∈ writes.head?,
    mac.first4 (mac.update hmac (payload.take maxRecordPayload)) =
      mac.first4 (mac.update ig (payload.take maxRecordPayload))

/-- However the records of the writes are cut, the receiver puts out all that was written. -/
def RoundTrips (mac : Hmac η) (hmac : η) (ignore : Option η) (writes : List Bytes) : Prop :=
  ∀ verify add : η, ∀ other : Option η, ∀ pieces : List Bytes,
    pieces.flatten = (ShadowTlsStream.frames mac (.v3 hmac verify other) writes).1 →
    ∃ mode, shadowTlsDrainPieces mac [] [] (.v3 add hmac ignore) pieces = (.ok (), [], writes.flatten, mode)

/-- The bodies fit, and behind the tags they carry what was written. -/
theorem sealedPayloads_bodies (hmac : η) (payloads : List Bytes)
    (h : ∀ payload ∈ payloads, FitsRecord payload) :
    (∀ body ∈ (packAll (sealPayload mac) hmac payloads).1, body.length < 65536) ∧
      (packAll (sealPayload mac) hmac payloads).1.flatMap (·.drop 4) = payloads.flatten := by
  constructor
  · refine forall_packAll (fun payload hmem hmac body hbody => ?_) hmac
    rw [sealPayload, List.mem_singleton] at hbody
    rw [hbody]
    exact sealed_length mac _ (h payload hmem)
  · clear h
    induction payloads generalizing hmac with
    | nil => rfl
    | cons payload payloads ih =>
      rw [packAll, List.flatten_cons, ← ih (sealPayload mac hmac payload).2]
      simp only [sealPayload, List.singleton_append, List.flatMap_cons, List.drop_left' (mac.first4_length _)]

theorem sealedWrites_bodies (hmac : η) (writes : List Bytes) :
    (∀ body ∈ (packAll (sealWrite mac) hmac writes).1, body.length < 65536) ∧
      (packAll (sealWrite mac) hmac writes).1.flatMap (·.drop 4) = writes.flatten := by
  have hwrite : ∀ hmac payload, (∀ body ∈ (sealWrite mac hmac payload).1, body.length < 65536) ∧
      (sealWrite mac hmac payload).1.flatMap (·.drop 4) = payload := by
    intro hmac payload
    obtain ⟨hflatten,hlength⟩ := recordChunks_spec payload
    rw [sealWrite]
    split
    case isTrue hnil =>
      rw [hnil]
      exact ⟨fun body hmem => by rw [List.mem_singleton.mp hmem]; decide, rfl⟩
    case isFalse =>
      obtain ⟨hchunks,hcarried⟩ := sealedPayloads_bodies mac hmac _ hlength
      exact ⟨hchunks, hcarried.trans hflatten⟩
  constructor
  · exact forall_packAll (fun payload _ hmac => (hwrite hmac payload).1) hmac
  · induction writes generalizing hmac with
    | nil => rfl
    | cons payload writes ih =>
      rw [packAll]
      dsimp only
      rw [List.flatMap_append, (hwrite hmac payload).2, ih, List.flatten_cons]

theorem sealedWrites_empty (hmac : η) (writes : List Bytes) :
    (packAll (sealWrite mac) hmac ([] :: writes)).1 = [] :: (packAll (sealWrite mac) hmac writes).1 := by
  rw [packAll]
  dsimp only
  rw [sealWrite, if_pos rfl]
  rfl

/-- The first record of a write that is not empty. -/
theorem sealedWrites_cons (hmac : η) {payload : Bytes} (h : payload ≠ []) (writes : List Bytes) :
    ∃ bodies, (packAll (sealWrite mac) hmac (payload :: writes)).1 =
      (mac.first4 (mac.update hmac (payload.take maxRecordPayload)) ++
        payload.take maxRecordPayload) :: bodies := by
  rw [packAll]
  dsimp only
  rw [sealWrite, if_neg h, recordChunks, dif_neg h]
  exact ⟨_, rfl⟩

/-- If the first record is not ignored, the phase of ignored records is over with it. -/
theorem run_not_ignored (hmac : η) {ignore : Option η} {writes : List Bytes} (hne : writes ≠ [])
    (h : ¬ IgnoresFirst mac hmac ignore writes) :
    (shadowTlsRecords mac).run (.v3 add hmac ignore)
        ((packAll (sealWrite mac) hmac writes).1.flatMap tlsRecord) =
      (shadowTlsRecords mac).run (.v3 add hmac none)
        ((packAll (sealWrite mac) hmac writes).1.flatMap tlsRecord) := by
  cases ignore with
  | none => rfl
  | some ig =>
    cases writes with
    | nil => exact absurd rfl hne
    | cons payload writes =>
      by_cases hnil : payload = []
      · rw [hnil, sealedWrites_empty, List.flatMap_cons, run_untagged, run_untagged]
      · obtain ⟨bodies,hbodies⟩ := sealedWrites_cons mac hmac hnil writes
        have hfits := (sealedWrites_bodies mac hmac (payload :: writes)).1 _ (hbodies ▸ List.mem_cons_self)
        rw [hbodies, List.flatMap_cons]
        exact run_not_tagged mac add hmac (mac.first4_length _) hfits
          (fun htag => h ⟨ig, rfl, payload, rfl, htag⟩) _

theorem roundTrips_iff_run (hmac : η) (ignore : Option η) (writes : List Bytes) :
    RoundTrips mac hmac ignore writes ↔ ∀ add,
      let d := (shadowTlsRecords mac).run (.v3 add hmac ignore)
        ((packAll (sealWrite mac) hmac writes).1.flatMap tlsRecord)
      d.fault = none ∧ d.rest = [] ∧ d.out = writes.flatten := by
  constructor
  · intro h add
    have hwire := congrArg Prod.fst (frames_v3 mac hmac hmac none writes)
    obtain ⟨mode,hpieces⟩ := h hmac add none [_] ((List.append_nil _).trans hwire.symm)
    have hrun := shadowTlsDrainPieces_flatten mac (.v3 add hmac ignore)
      [(packAll (sealWrite mac) hmac writes).1.flatMap tlsRecord]
    rw [hpieces, List.flatten_singleton] at hrun
    obtain ⟨hfault,hout,hall⟩ := hrun
    have hnone := faultResult_ok hfault.symm
    exact ⟨hnone, (congrArg (·.2.1) (hall hnone)).symm, hout.symm⟩
  · intro h verify add other pieces hpieces
    have hrun := shadowTlsDrainPieces_flatten mac (.v3 add hmac ignore) pieces
    rw [hpieces, frames_v3] at hrun
    obtain ⟨hfault,hrest,hout⟩ := h add
    have hall := hrun.2.2 hfault
    exact ⟨_, by rw [hall, hrest, hout]⟩

variable {mac}

theorem RoundTrips.not_ignores {hmac : η} {ignore : Option η} {writes : List Bytes}
    (h : RoundTrips mac hmac ignore writes) : ¬ IgnoresFirst mac hmac ignore writes := by
  rintro ⟨ig,rfl,payload,hhead,htag⟩
  obtain ⟨hfault,_,hout⟩ := (roundTrips_iff_run mac hmac _ writes).mp h hmac
  cases writes with
  | nil => cases hhead
  | cons p writes =>
    cases hhead
    by_cases hnil : payload = []
    · rw [hnil, sealedWrites_empty, List.flatMap_cons, run_untagged] at hfault
      cases hfault
    · obtain ⟨bodies,hbodies⟩ := sealedWrites_cons mac hmac hnil writes
      obtain ⟨hfits,hcarried⟩ := sealedWrites_bodies mac hmac (payload :: writes)
      rw [hbodies] at hfits hcarried hout
      have hdrain := drainFrame_ignoring mac hmac hmac
        (mac.first4_length (mac.update hmac (payload.take maxRecordPayload)))
        (payload.take maxRecordPayload) ig
      rw [if_pos htag] at hdrain
      rw [List.flatMap_cons, run_record_ok mac (hfits _ List.mem_cons_self) hdrain] at hout
      have hle := run_length mac hmac bodies (fun b hb => hfits b (List.mem_cons_of_mem _ hb)) hmac
        (some (mac.update ig (payload.take maxRecordPayload)))
      have hlen := congrArg List.length hout
      have hpos : 0 < (payload.take maxRecordPayload).length := by
        have hwhole := List.length_pos_iff.mpr hnil
        rw [List.length_take, maxRecordPayload]
        omega
      rw [Decoded.after_out, List.nil_append, ← hcarried, List.flatMap_cons,
        List.drop_left' (mac.first4_length _), List.length_append] at hlen
      omega

theorem RoundTrips.not_empty {hmac : η} {ignore : Option η} {writes : List Bytes}
    (h : RoundTrips mac hmac ignore writes) : ∀ payload ∈ writes, payload ≠ [] := by
  have hnot := h.not_ignores
  obtain ⟨hfault,_⟩ := (roundTrips_iff_run mac hmac _ writes).mp h hmac
  intro payload hmem hnil
  subst hnil
  have hne : writes ≠ [] := List.ne_nil_of_mem hmem
  rw [run_not_ignored mac hmac hmac hne hnot] at hfault
  -- the records before the first empty write are read; its own is not
  obtain ⟨front,back,rfl,hfront⟩ := List.eq_append_cons_of_mem hmem
  have hnonempty : ∀ payload ∈ front, payload ≠ [] := fun p hp heq => hfront (heq ▸ hp)
  rw [packAll_append, List.flatMap_append, run_writes mac hmac hmac front hnonempty, sealedWrites_empty,
    List.flatMap_cons, run_untagged] at hfault
  cases hfault

theorem roundTrips_iff (hmac : η) (ignore : Option η) (writes : List Bytes) :
    RoundTrips mac hmac ignore writes ↔
      (∀ payload ∈ writes, payload ≠ []) ∧ ¬ IgnoresFirst mac hmac ignore writes := by
  refine ⟨fun h => ⟨h.not_empty, h.not_ignores⟩, ?_⟩
  rintro ⟨hnonempty,hnot⟩
  refine (roundTrips_iff_run mac hmac ignore writes).mpr fun add => ?_
  by_cases hnil : writes = []
  · subst hnil
    rw [packAll, List.flatMap_nil, run_nil]
    exact ⟨rfl, rfl, rfl⟩
  · have hrun := run_writes mac add hmac writes hnonempty []
    rw [List.append_nil] at hrun
    rw [run_not_ignored mac add hmac hnil hnot, hrun, run_nil]
    exact ⟨rfl, rfl, List.append_nil _⟩

/-! ## Authenticity -/

/-- The body of a record that is ignored: its tag does not enter the HMAC. -/
def ignorePayload (mac : Hmac η) (hmac : η) (payload : Bytes) : List Bytes × η :=
  ([mac.first4 (mac.update hmac payload) ++ payload], mac.update hmac payload)

/-- What one frame is to the receiver in version 3. -/
inductive V3Frame (mac : Hmac η) : ShadowTlsMode η → Bytes → Bytes → ShadowTlsMode η → Prop where
  | ignored (add verify ignore : η) (payload : Bytes) :
      V3Frame mac (.v3 add verify (some ignore))
        ((ignorePayload mac ignore payload).1.flatMap tlsRecord) []
        (.v3 add verify (some (ignorePayload mac ignore payload).2))
  | accepted (add verify : η) (ignore : Option η) (payload : Bytes) :
      V3Frame mac (.v3 add verify ignore) ((sealPayload mac verify payload).1.flatMap tlsRecord) payload
        (.v3 add (sealPayload mac verify payload).2 none)
  | other {mode mode' : ShadowTlsMode η} {frame out : Bytes} :
      (∀ add verify ignore, mode ≠ .v3 add verify ignore) → V3Frame mac mode frame out mode'

theorem drainFrame_checked {frame out : Bytes} {mode mode' : ShadowTlsMode η}
    (hframe : frame.length = 5 + be16At frame 3)
    (h : shadowTlsDrainFrame mac frame mode = (.ok out, mode')) : V3Frame mac mode frame out mode' := by
  cases mode with
  | plain => exact .other fun add verify ignore heq => by cases heq
  | v2 tag => exact .other fun add verify ignore heq => by cases heq
  | v3 add verify ignore =>
    obtain ⟨ig,ig',rfl,hverify,rfl,rfl⟩ | ⟨verify',hverify,rfl,rfl⟩ := drainFrame_ok mac add verify h
    · obtain ⟨payload,hrecord,hnext⟩ := verify_true mac hframe hverify
      have hignored : V3Frame mac _ _ _ _ := .ignored add verify ig payload
      simp only [ignorePayload, List.flatMap_singleton] at hignored
      rw [if_neg (by decide)] at hnext
      rw [hrecord, hnext]
      exact hignored
    · obtain ⟨payload,hrecord,hnext⟩ := verify_true mac hframe hverify
      have haccepted : V3Frame mac _ _ _ _ := .accepted add verify ignore payload
      rw [if_pos rfl] at hnext
      rw [hrecord, drop_record (mac.first4_length _), hnext]
      simpa only [sealPayload, List.flatMap_singleton] using haccepted

theorem shadowTlsRecords_checks (mac : Hmac η) : (shadowTlsRecords mac).Checks id (V3Frame mac) where
  frame := by
    intro mode raw mode' n out h
    obtain ⟨hwait,_⟩ | ⟨_,_,hbad⟩ | ⟨_,hle,⟨out',m,hdrain,hframe⟩ | ⟨err,m,_,hfault⟩⟩ :=
      shadowTlsTurn_cases mac mode raw
    · cases hwait.symm.trans h
    · cases hbad.symm.trans h
    · cases hframe.symm.trans h
      refine drainFrame_checked ?_ hdrain
      rw [be16At_take (by omega), List.length_take, Nat.min_eq_left hle]
    · cases hfault.symm.trans h
  wait := by
    intro mode raw mode' h
    obtain ⟨hwait,_⟩ | ⟨_,_,hbad⟩ | ⟨_,_,⟨out',m,_,hframe⟩ | ⟨err,m,_,hfault⟩⟩ :=
      shadowTlsTurn_cases mac mode raw
    · cases hwait.symm.trans h
      rfl
    · cases hbad.symm.trans h
    · cases hframe.symm.trans h
    · cases hfault.symm.trans h

/-- The records that a receiver ignores before the first it accepts. -/
def ignoredRecords (mac : Hmac η) (ignore : Option η) (payloads : List Bytes) : Bytes :=
  match ignore with
  | none => []
  | some ig => (packAll (ignorePayload mac) ig payloads).1.flatMap tlsRecord

/-- The output is what the records carry that stand at the front of the stream behind the
ignored ones, each sealed with the HMAC of all that has been accepted before it. -/
def Authentic (mac : Hmac η) (hmac : η) (ignore : Option η) (stream output : Bytes) : Prop :=
  ∃ dropped accepted, output = accepted.flatten ∧
    ignoredRecords mac ignore dropped ++ (packAll (sealPayload mac) hmac accepted).1.flatMap tlsRecord <+:
      stream

theorem accepts_sealed {mode mode' : ShadowTlsMode η} {frames : List Bytes} {out : Bytes}
    (h : Accepts (V3Frame mac) mode frames out mode') (add verify : η) (ignore : Option η)
    (hmode : mode = .v3 add verify ignore) :
    ∃ dropped accepted, out = accepted.flatten ∧ frames.flatten =
      ignoredRecords mac ignore dropped ++
        (packAll (sealPayload mac) verify accepted).1.flatMap tlsRecord := by
  induction h generalizing verify ignore with
  | nil =>
    refine ⟨[], [], rfl, ?_⟩
    cases ignore <;> rfl
  | @cons k k' k'' frame frames payload outs hframe _ ih =>
    cases hframe with
    | other hnot => exact absurd hmode (hnot add verify ignore)
    | ignored add' verify' ig data =>
      cases hmode
      obtain ⟨dropped,accepted,hout,hframes⟩ := ih _ _ rfl
      refine ⟨data :: dropped, accepted, hout, ?_⟩
      rw [List.flatten_cons, hframes]
      simp only [ignoredRecords, packAll, List.flatMap_append, List.append_assoc]
    | accepted add' verify' ignore' =>
      cases hmode
      obtain ⟨dropped,accepted,hout,hframes⟩ := ih _ _ rfl
      refine ⟨[], payload :: accepted, ?_, ?_⟩
      · rw [hout, List.flatten_cons]
      · have hnone : ignoredRecords mac ignore [] = [] := by cases ignore <;> rfl
        rw [List.flatten_cons, hframes, hnone]
        simp only [ignoredRecords, packAll, List.flatMap_append, List.nil_append]

theorem drainPieces_authentic (mac : Hmac η) (add hmac : η) (ignore : Option η) (pieces : List Bytes) :
    Authentic mac hmac ignore pieces.flatten
      (shadowTlsDrainPieces mac [] [] (.v3 add hmac ignore) pieces).2.2.1 := by
  obtain ⟨frames,mode,haccepts,_,hfront⟩ :=
    (shadowTlsRecords_checks mac).run (.v3 add hmac ignore) pieces.flatten
  obtain ⟨dropped,accepted,hout,hframes⟩ := accepts_sealed haccepts add hmac ignore rfl
  refine ⟨dropped, accepted, ?_, hframes ▸ hfront⟩
  rw [← hout]
  exact (shadowTlsDrainPieces_flatten mac (.v3 add hmac ignore) pieces).2.1

/-- Writes come back exactly if none is empty and the first record is not ignored; and
nothing comes out but what sealed records carry, whatever the stream. -/
theorem shadow_tls_v3_round_trip_iff (mac : Hmac η) (hmac : η) (ignore : Option η) :
    (∀ writes, RoundTrips mac hmac ignore writes ↔
      (∀ payload ∈ writes, payload ≠ []) ∧ ¬ IgnoresFirst mac hmac ignore writes) ∧
    ∀ (add : η) (pieces : List Bytes), Authentic mac hmac ignore pieces.flatten
      (shadowTlsDrainPieces mac [] [] (.v3 add hmac ignore) pieces).2.2.1 :=
  ⟨roundTrips_iff hmac ignore, fun add => drainPieces_authentic mac add hmac ignore⟩

/-- The record of an empty write is refused. -/
theorem shadow_tls_v3_empty_write_refused :
    ¬ ∀ (writes : List Bytes), RoundTrips ShadowTlsStream.checksum 0 none writes := by
  intro h
  exact (h [[]]).not_empty [] List.mem_cons_self rfl

end AtlasKernel.Shadowsocks
