import AtlasKernel.H2.Download
import AtlasKernel.Lib.FrameDecoder
import AtlasKernel.Lib.Protobuf

/-! The payloads of a tunnel over gRPC: each is the one field of a message, and the message is
a frame of its own. Source: `encode_grpc_hunk`, `GrpcHunkDecoder` in `adapter/vless.rs`. -/
namespace AtlasKernel.H2
open AtlasKernel.Lib

/-! ## Seven bits at a time -/

theorem shiftRight_seven (value : UInt64) : (value >>> 7).toNat = value.toNat / 128 := by
  rw [UInt64.toNat_shiftRight]
  exact Nat.shiftRight_eq_div_pow value.toNat 7

theorem shiftRight_seven_eq_zero_iff (value : UInt64) : value >>> 7 = 0 ↔ value.toNat < 128 := by
  rw [← UInt64.toNat_inj, shiftRight_seven]
  change value.toNat / 128 = 0 ↔ value.toNat < 128
  omega

theorem low_seven (value : UInt64) : ((value &&& 0x7f).toUInt8).toNat = value.toNat % 128 := by
  rw [UInt64.toNat_toUInt8, UInt64.toNat_and]
  change (value.toNat &&& (2 ^ 7 - 1)) % 256 = value.toNat % 128
  rw [Nat.and_two_pow_sub_one_eq_mod]
  omega

theorem mark_toNat {byte : UInt8} (h : byte.toNat < 128) : (byte ||| 0x80).toNat = byte.toNat + 128 := by
  rw [UInt8.toNat_or, Nat.or_comm]
  have hor := Nat.two_pow_add_eq_or_of_lt (i := 7) h 1
  simpa [Nat.add_comm] using hor.symm

/-! ## The encoder -/

def writeProtobufVarint (value : UInt64) : Bytes :=
  let byte := (value &&& 0x7f).toUInt8
  if value >>> 7 ≠ 0 then (byte ||| 0x80) :: writeProtobufVarint (value >>> 7) else [byte]
termination_by value.toNat
decreasing_by
  rename_i hmore
  rw [Ne, shiftRight_seven_eq_zero_iff] at hmore
  rw [shiftRight_seven]
  omega

def encodeGrpcHunk (payload : Bytes) : Bytes :=
  let message := 0x0a :: (writeProtobufVarint (UInt64.ofNat payload.length) ++ payload)
  -- the length of the message is cast to 32 bits
  0 :: (be32 message.length ++ message)

/-- `GrpcHunkDecoder::push` with one piece of data after another. -/
def grpcPushAll (pending : Bytes) : List Bytes → Bytes × List Bytes
  | [] => (pending, [])
  | data :: pieces =>
    let r := grpcHunks (pending ++ data)
    let r' := grpcPushAll r.1 pieces
    (r'.1, r.2 ++ r'.2)

/-! ## Numbers -/

theorem writeProtobufVarint_eq (value : UInt64) :
    writeProtobufVarint value = Protobuf.writeDigits value.toNat := by
  induction value using writeProtobufVarint.induct with
  | case1 value hmore ih =>
    have hlow := low_seven value
    have hmark : ((value &&& 0x7f).toUInt8 ||| 0x80) = UInt8.ofNat (value.toNat % 128 + 128) := by
      apply UInt8.toNat_inj.mp
      rw [mark_toNat (by omega), hlow, UInt8.toNat_ofNat']
      omega
    have hle := hmore
    rw [ne_eq, shiftRight_seven_eq_zero_iff] at hle
    rw [writeProtobufVarint, if_pos hmore, Protobuf.writeDigits, if_neg hle]
    rw [hmark, ih, shiftRight_seven]
  | case2 value hlast =>
    have hlt := hlast
    rw [ne_eq, not_not, shiftRight_seven_eq_zero_iff] at hlt
    have hbyte : (value &&& 0x7f).toUInt8 = UInt8.ofNat value.toNat := by
      apply UInt8.toNat_inj.mp
      rw [low_seven, UInt8.toNat_ofNat']
      omega
    rw [writeProtobufVarint, if_neg hlast, Protobuf.writeDigits, if_pos hlt, hbyte]

theorem low_bits_toNat (byte : UInt8) : (byte &&& 0x7f).toNat = byte.toNat % 128 := by
  rw [UInt8.toNat_and]
  exact Nat.and_two_pow_sub_one_eq_mod byte.toNat 7

theorem unmarked_iff (byte : UInt8) : byte &&& 0x80 = 0 ↔ byte.toNat < 128 := by
  have hbit : ∀ n < 256, n &&& 128 = 0 ↔ n < 128 := by decide +kernel
  rw [← UInt8.toNat_inj, UInt8.toNat_and]
  exact hbit byte.toNat byte.toNat_lt

/-- The digits read so far, and the next. The tenth loses what does not fit into 64 bits. -/
theorem or_digit {index : Nat} {value : UInt64} (hindex : index ≤ 9)
    (hvalue : value.toNat < 128 ^ index) (byte : UInt8) :
    value ||| ((byte &&& 0x7f).toUInt64 <<< UInt64.ofNat (index * 7)) =
      UInt64.ofNat (value.toNat + 128 ^ index * (byte.toNat % 128)) := by
  have hshift : (UInt64.ofNat (index * 7)).toNat % 64 = 7 * index := by
    rw [UInt64.toNat_ofNat']
    omega
  have hpow : 128 ^ index = 2 ^ (7 * index) := (Nat.pow_mul 2 7 index).symm
  have hword : 2 ^ 64 = 2 ^ (7 * index) * 2 ^ (64 - 7 * index) := by
    rw [← Nat.pow_add]
    congr 1
    omega
  rw [hpow] at hvalue ⊢
  apply UInt64.toNat_inj.mp
  rw [UInt64.toNat_or, UInt64.toNat_shiftLeft, hshift, UInt8.toNat_toUInt64, low_bits_toNat,
    UInt64.toNat_ofNat', Nat.shiftLeft_eq, Nat.mul_comm _ (2 ^ _), hword, Nat.mul_mod_mul_left,
    Nat.or_comm, ← Nat.two_pow_add_eq_or_of_lt hvalue, Nat.mod_mul,
    Nat.add_mul_mod_self_left, Nat.mod_eq_of_lt hvalue,
    Nat.add_mul_div_left _ _ (Nat.two_pow_pos _), Nat.div_eq_of_lt hvalue, Nat.zero_add,
    Nat.add_comm]

theorem readProtobufVarintLoop_eq {index : Nat} {value : UInt64} (hindex : index ≤ 9)
    (hvalue : value.toNat < 128 ^ index) (data : Bytes) :
    readProtobufVarintLoop index value data =
      (Protobuf.readDigits (10 - index) data).map fun r =>
        (UInt64.ofNat (value.toNat + 128 ^ index * r.1), index + r.2) := by
  have hplaces : 10 - index = (9 - index) + 1 := by omega
  rw [hplaces]
  induction data generalizing index value with
  | nil => rfl
  | cons byte data ih =>
    rw [readProtobufVarintLoop, Protobuf.readDigits]
    simp only [unmarked_iff, or_digit hindex hvalue]
    split
    case isTrue hlast => rw [Option.map_some, Nat.mod_eq_of_lt hlast]
    case isFalse hmore =>
      split
      case isTrue hten =>
        have hzero : 9 - index = 0 := by omega
        simp [hzero, Protobuf.readDigits]
      case isFalse hnine =>
        have hstep : value.toNat + 128 ^ index * (byte.toNat % 128) < 128 ^ (index + 1) := by
          rw [Nat.pow_succ]
          have hdigit : byte.toNat % 128 ≤ 127 := by omega
          have hmul := Nat.mul_le_mul_left (128 ^ index) hdigit
          omega
        have hfits : 128 ^ (index + 1) ≤ 128 ^ 9 := Nat.pow_le_pow_right (by decide) (by omega)
        have hnat : (UInt64.ofNat (value.toNat + 128 ^ index * (byte.toNat % 128))).toNat =
            value.toNat + 128 ^ index * (byte.toNat % 128) := by
          rw [UInt64.toNat_ofNat']
          apply Nat.mod_eq_of_lt
          apply hstep.trans_le
          exact hfits.trans (by decide)
        rw [ih (by omega) (by rw [hnat]; exact hstep) (by omega), Option.map_map, hnat]
        have hfuel : 9 - index = 9 - (index + 1) + 1 := by omega
        rw [hfuel]
        congr 1
        funext r
        simp only [Function.comp, Prod.mk.injEq]
        constructor
        · congr 1
          rw [Nat.pow_succ, Nat.mul_add, Nat.mul_assoc, Nat.add_assoc]
        · omega

theorem readProtobufVarint_eq (data : Bytes) :
    readProtobufVarint data =
      (Protobuf.readVarint data).map fun r => (UInt64.ofNat r.1, r.2) := by
  rw [readProtobufVarint, readProtobufVarintLoop_eq (by decide) (by decide), Protobuf.readVarint,
    Option.map_map]
  congr 1
  funext r
  have hword : UInt64.ofNat (r.1 % 18446744073709551616) = UInt64.ofNat r.1 := by
    apply UInt64.toNat_inj.mp
    rw [UInt64.toNat_ofNat', UInt64.toNat_ofNat', Nat.mod_mod_of_dvd _ (Nat.dvd_refl _)]
  simp [hword]

/-! ## One message -/

theorem decodeGrpcHunkMessage_tagged {message : Bytes} (h : message.length < 18446744073709551615) :
    decodeGrpcHunkMessage (0x0a :: message) =
      (Protobuf.readVarint message).bind fun r => Protobuf.takeBytes r.1 (message.drop r.2) := by
  rw [decodeGrpcHunkMessage, readProtobufVarint_eq]
  cases hread : Protobuf.readVarint message with
  | none => rfl
  | some r =>
    have hlen := Protobuf.readVarint_bound hread
    have hnat : (UInt64.ofNat r.1).toNat = r.1 := by
      rw [UInt64.toNat_ofNat']
      exact Nat.mod_eq_of_lt hlen.2.2.1
    simp only [Option.map_some, Option.bind_some, hnat, Protobuf.takeBytes, List.length_drop,
      List.length_cons]
    by_cases hfits : r.1 ≤ message.length - r.2
    · have hend : 1 + r.2 + r.1 < 18446744073709551616 ∧ 1 + r.2 + r.1 ≤ message.length + 1 := by omega
      have hslice : slice (0x0a :: message) (1 + r.2) (1 + r.2 + r.1) = (message.drop r.2).take r.1 := by
        have hskip := slice_append_right [0x0a] message r.2 (r.2 + r.1)
        rw [List.length_singleton, ← Nat.add_assoc] at hskip
        apply hskip.trans
        rw [slice, List.drop_take, Nat.add_sub_cancel_left]
      rw [if_pos hfits, if_pos hend, hslice]
    · have hend : ¬ (1 + r.2 + r.1 < 18446744073709551616 ∧ 1 + r.2 + r.1 ≤ message.length + 1) := by
        omega
      rw [if_neg hfits, if_neg hend]

theorem decodeGrpcHunkMessage_untagged {message : Bytes} (h : message.head? ≠ some 0x0a) :
    decodeGrpcHunkMessage message = none := by
  rw [decodeGrpcHunkMessage.eq_def]
  split
  case h_1 => exact absurd rfl h
  case h_2 => rfl

/-- The number before a payload leaves so much less room in the message. -/
theorem decodeGrpcHunkMessage_room {message payload : Bytes} (hlen : message.length < 4294967296)
    (h : decodeGrpcHunkMessage message = some payload) : payload.length ≤ 4294967289 := by
  cases message with
  | nil => simp [decodeGrpcHunkMessage] at h
  | cons tag message =>
    by_cases htag : tag = 0x0a
    · subst htag
      rw [List.length_cons] at hlen
      rw [decodeGrpcHunkMessage_tagged (by omega), Option.bind_eq_some_iff] at h
      obtain ⟨r,hread,htake⟩ := h
      have hbound := Protobuf.readVarint_bound hread
      have hpayload := Protobuf.takeBytes_length htake
      rw [List.length_drop] at hpayload
      by_cases hshort : r.2 ≤ 4
      · have hdigits : 128 ^ r.2 ≤ 128 ^ 4 := Nat.pow_le_pow_right (by decide) hshort
        omega
      · omega
    · rw [decodeGrpcHunkMessage_untagged (by simpa using htag)] at h
      cases h

/-- The message of one payload. -/
theorem decodeGrpcHunkMessage_encode {payload : Bytes} (h : payload.length ≤ 4294967289) :
    decodeGrpcHunkMessage (0x0a :: (writeProtobufVarint (UInt64.ofNat payload.length) ++ payload)) =
      some payload := by
  have hnat : (UInt64.ofNat payload.length).toNat = payload.length := by
    rw [UInt64.toNat_ofNat']
    omega
  have hdigits : (Protobuf.writeDigits payload.length).length ≤ 4 + 1 :=
    Protobuf.writeDigits_length (by omega)
  rw [writeProtobufVarint_eq, hnat, decodeGrpcHunkMessage_tagged, Protobuf.readVarint_writeDigits (by omega)]
  · simp only [Option.bind_some, List.drop_left]
    simpa using Protobuf.takeBytes_append payload []
  · rw [List.length_append]
    omega

/-! ## Frames -/

/-- A whole frame at the front, whatever its flag. -/
def FrontComplete (pending : Bytes) : Prop :=
  5 ≤ pending.length ∧ 5 + be32At pending 1 ≤ pending.length

instance (pending : Bytes) : Decidable (FrontComplete pending) :=
  inferInstanceAs (Decidable (_ ∧ _))

theorem FrontComplete.append {pending : Bytes} (h : FrontComplete pending) (more : Bytes) :
    FrontComplete (pending ++ more) ∧ byteAt (pending ++ more) 0 = byteAt pending 0 ∧
      be32At (pending ++ more) 1 = be32At pending 1 ∧
      slice (pending ++ more) 5 (5 + be32At pending 1) = slice pending 5 (5 + be32At pending 1) := by
  have hlen : be32At (pending ++ more) 1 = be32At pending 1 := be32At_append h.1 more
  refine ⟨?_, byteAt_append (Nat.lt_of_lt_of_le (by decide) h.1) more, hlen, ?_⟩
  · rw [FrontComplete, hlen, List.length_append]
    exact ⟨Nat.le_add_right_of_le h.1, Nat.le_add_right_of_le h.2⟩
  · rw [slice, slice, List.take_append_of_le_length h.2]

/-- The frames with a flag that is let through, and what is made of their messages. -/
def hunkFrames {β : Type} (passes : UInt8 → Bool) (read : UInt8 → Bytes → List β) :
    FrameDecoder Unit UInt8 β Empty where
  inspect _ pending :=
    if FrontComplete pending ∧ passes (byteAt pending 0) = true then
      .frame () (5 + be32At pending 1)
        (read (byteAt pending 0) (slice pending 5 (5 + be32At pending 1)))
    else .wait ()
  frame_fits := by
    intro _ pending _ n out h
    split at h
    case isTrue hwhole =>
      cases h
      exact ⟨by omega, hwhole.1.2⟩
    case isFalse => cases h
  frame_stable := by
    intro _ pending _ n out h more
    split at h
    case isTrue hwhole =>
      cases h
      have happend := hwhole.1.append more
      rw [happend.2.1, happend.2.2.1, happend.2.2.2, if_pos ⟨happend.1,hwhole.2⟩]
    case isFalse => cases h
  fault_stable := by
    intro _ _ _ _ e
    cases e
  wait_stable := by
    intro _ _ _ _ _
    rfl

/-! ## The loop -/

theorem grpcHunks_wait {pending : Bytes} (h : ¬ (FrontComplete pending ∧ byteAt pending 0 = 0)) :
    grpcHunks pending = (pending,[]) := by
  rw [grpcHunks]
  split
  case isTrue => rfl
  case isFalse hlong =>
    apply if_pos
    by_contra hwhole
    rw [not_or, not_not, Nat.not_lt] at hwhole
    exact h ⟨⟨Nat.not_lt.mp hlong,hwhole.2⟩,hwhole.1⟩

theorem grpcHunks_frame {pending : Bytes} (hfront : FrontComplete pending)
    (hflag : byteAt pending 0 = 0) :
    grpcHunks pending =
      ((grpcHunks (pending.drop (5 + be32At pending 1))).1,
        (decodeGrpcHunkMessage (slice pending 5 (5 + be32At pending 1))).toList ++
          (grpcHunks (pending.drop (5 + be32At pending 1))).2) := by
  have hwhole : ¬ (byteAt pending 0 ≠ 0 ∨ pending.length < 5 + be32At pending 1) := by
    rw [not_or, not_not, Nat.not_lt]
    exact ⟨hflag,hfront.2⟩
  rw [grpcHunks, if_neg (Nat.not_lt.mpr hfront.1)]
  exact if_neg hwhole

theorem grpcHunks_frame_parts {pending : Bytes} (hfront : FrontComplete pending)
    (hflag : byteAt pending 0 = 0) :
    (grpcHunks pending).1 = (grpcHunks (pending.drop (5 + be32At pending 1))).1 ∧
      (grpcHunks pending).2 =
        (decodeGrpcHunkMessage (slice pending 5 (5 + be32At pending 1))).toList ++
          (grpcHunks (pending.drop (5 + be32At pending 1))).2 :=
  Prod.mk.inj ((Prod.eta _).trans (grpcHunks_frame hfront hflag))

/-- Either the loop stops, or there is a whole frame with flag zero at the front. -/
theorem grpcHunks_induction {P : Bytes → Prop}
    (wait : ∀ pending, ¬ (FrontComplete pending ∧ byteAt pending 0 = 0) → P pending)
    (frame : ∀ pending, FrontComplete pending → byteAt pending 0 = 0 →
      P (pending.drop (5 + be32At pending 1)) → P pending) (pending : Bytes) : P pending := by
  induction pending using grpcHunks.induct with
  | case1 pending hshort => exact wait pending fun h => Nat.not_le.mpr hshort h.1.1
  | case2 pending hlong len hwait =>
    refine wait pending fun h => ?_
    cases hwait with
    | inl hflag => exact hflag h.2
    | inr hmissing => exact Nat.not_le.mpr hmissing h.1.2
  | case3 pending hlong len hwhole ih =>
    rw [not_or, not_not, Nat.not_lt] at hwhole
    exact frame pending ⟨Nat.not_lt.mp hlong,hwhole.2⟩ hwhole.1 ih

/-- The decoder takes the frames with flag zero. -/
def hunkDecoder : FrameDecoder Unit UInt8 Bytes Empty :=
  hunkFrames (· == 0) fun _ message => (decodeGrpcHunkMessage message).toList

theorem hunkDecoder_run (pending : Bytes) :
    hunkDecoder.run () pending = ⟨(), (grpcHunks pending).1, (grpcHunks pending).2, none⟩ := by
  induction pending using grpcHunks_induction with
  | wait pending hfront =>
    have hwait : hunkDecoder.inspect () pending = .wait () := if_neg (by simpa using hfront)
    rw [FrameDecoder.run_wait hwait, grpcHunks_wait hfront]
  | frame pending hfront hflag ih =>
    have hframe : hunkDecoder.inspect () pending = .frame () (5 + be32At pending 1)
        (decodeGrpcHunkMessage (slice pending 5 (5 + be32At pending 1))).toList :=
      if_pos ⟨hfront,by simp [hflag]⟩
    obtain ⟨hrest,hout⟩ := grpcHunks_frame_parts hfront hflag
    rw [FrameDecoder.run_frame hframe, ih, Decoded.after_mk, hrest, hout]

theorem hunkDecoder_feed (pending : Bytes) (pieces : List Bytes) :
    hunkDecoder.feed () pending pieces =
      ⟨(), (grpcPushAll pending pieces).1, (grpcPushAll pending pieces).2, none⟩ := by
  induction pieces generalizing pending with
  | nil => rfl
  | cons data pieces ih =>
    simp only [FrameDecoder.feed, hunkDecoder_run, ih, grpcPushAll]
    rfl

/-- The cuts make no difference. -/
theorem grpcPushAll_flatten (pieces : List Bytes) :
    grpcPushAll [] pieces = grpcHunks pieces.flatten := by
  have hfeed := hunkDecoder.feed_flatten () [] rfl pieces
  rw [hunkDecoder_feed, hunkDecoder_run] at hfeed
  have heq := hfeed.2.2 rfl
  rw [List.nil_append, Decoded.mk.injEq] at heq
  exact Prod.ext heq.2.1 heq.2.2.1

/-! ## The round trip -/

theorem grpcHunks_encode {payload : Bytes} (h : payload.length ≤ 4294967289) (rest : Bytes) :
    grpcHunks (encodeGrpcHunk payload ++ rest) =
      ((grpcHunks rest).1, payload :: (grpcHunks rest).2) := by
  have hnat : (UInt64.ofNat payload.length).toNat = payload.length := by
    rw [UInt64.toNat_ofNat']
    omega
  have hdigits : (Protobuf.writeDigits payload.length).length ≤ 4 + 1 :=
    Protobuf.writeDigits_length (by omega)
  have hmessage := decodeGrpcHunkMessage_encode h
  rw [encodeGrpcHunk]
  rw [writeProtobufVarint_eq, hnat] at hmessage ⊢
  generalize hm : 0x0a :: (Protobuf.writeDigits payload.length ++ payload) = message at *
  have hlen : message.length < 4294967296 := by
    rw [← hm, List.length_cons, List.length_append]
    omega
  have hfield : be32At (0 :: (be32 message.length ++ message) ++ rest) 1 = message.length := by
    have hskip := be32At_be32 message.length (message ++ rest)
    rw [Nat.mod_eq_of_lt hlen] at hskip
    rw [List.cons_append, List.append_assoc]
    exact hskip
  have hfront : FrontComplete (0 :: (be32 message.length ++ message) ++ rest) := by
    rw [FrontComplete, hfield]
    simp only [List.length_append, List.length_cons, be32_length]
    omega
  have hslice : slice (0 :: (be32 message.length ++ message) ++ rest) 5 (5 + message.length) = message := by
    rw [List.cons_append, List.append_assoc]
    exact slice_middle (0 :: be32 message.length) message rest
  have hdrop : (0 :: (be32 message.length ++ message) ++ rest).drop (5 + message.length) = rest := by
    have hfive : 5 + message.length = (0 :: (be32 message.length ++ message)).length := by
      simp only [List.length_append, List.length_cons, be32_length]
      omega
    rw [hfive, List.drop_left]
  rw [grpcHunks_frame hfront rfl, hfield, hslice, hdrop, hmessage]
  rfl

theorem grpcHunks_payloads {payloads : List Bytes}
    (h : ∀ payload ∈ payloads, payload.length ≤ 4294967289) :
    grpcHunks (payloads.flatMap encodeGrpcHunk) = ([],payloads) := by
  induction payloads with
  | nil => exact grpcHunks_wait fun h => absurd h.1.1 (by decide)
  | cons payload payloads ih =>
    rw [List.forall_mem_cons] at h
    rw [List.flatMap_cons, grpcHunks_encode h.1, ih h.2]

/-- No payload that comes out is longer than a frame has room for. -/
theorem grpcHunks_room (pending : Bytes) :
    ∀ payload ∈ (grpcHunks pending).2, payload.length ≤ 4294967289 := by
  induction pending using grpcHunks_induction with
  | wait pending hfront =>
    rw [grpcHunks_wait hfront]
    exact fun _ hmem => absurd hmem List.not_mem_nil
  | frame pending hfront hflag ih =>
    rw [(grpcHunks_frame_parts hfront hflag).2]
    intro payload hmem
    cases List.mem_append.mp hmem with
    | inl hfirst =>
      apply decodeGrpcHunkMessage_room _ (Option.mem_toList.mp hfirst)
      have hlen := be32At_lt pending 1
      rw [slice_length]
      omega
    | inr hrest => exact ih payload hrest

/-- Whatever the cuts, the pushes return the payloads, and nothing stays behind. -/
def RoundTrips (payloads : List Bytes) : Prop :=
  ∀ pieces : List Bytes, pieces.flatten = payloads.flatMap encodeGrpcHunk →
    grpcPushAll [] pieces = ([],payloads)

theorem RoundTrips.room {payloads : List Bytes} (h : RoundTrips payloads) :
    ∀ payload ∈ payloads, payload.length ≤ 4294967289 := by
  have hwhole := h [payloads.flatMap encodeGrpcHunk] (List.flatten_singleton ..)
  rw [grpcPushAll_flatten, List.flatten_singleton] at hwhole
  have hroom := grpcHunks_room (payloads.flatMap encodeGrpcHunk)
  rwa [hwhole] at hroom

/-- The length of a frame has 32 bits, and the message needs up to six bytes for itself. -/
theorem grpcRoundTrips_iff (payloads : List Bytes) :
    RoundTrips payloads ↔ ∀ payload ∈ payloads, payload.length ≤ 4294967289 := by
  constructor
  · exact RoundTrips.room
  · intro h pieces hpieces
    rw [grpcPushAll_flatten, hpieces, grpcHunks_payloads h]

theorem not_roundTrips_too_long : ¬ RoundTrips [List.replicate 4294967290 0] := by
  intro h
  have hroom := h.room _ (List.mem_singleton_self _)
  rw [List.length_replicate] at hroom
  omega

end AtlasKernel.H2
