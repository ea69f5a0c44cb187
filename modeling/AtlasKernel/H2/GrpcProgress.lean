import AtlasKernel.H2.GrpcHunk

/-! What stays in the buffer of the decoder of gRPC hunks, and which fields of the messages
come out. Source: `GrpcHunkDecoder`, `decode_grpc_hunk_message` in `adapter/vless.rs`. -/
namespace AtlasKernel.H2
open AtlasKernel.Lib

/-! ## The frames of a stream -/

/-- The frames as the stream has them, with their flags. -/
def allFrames : FrameDecoder Unit UInt8 (UInt8 × Bytes) Empty :=
  hunkFrames (fun _ => true) fun flag message => [(flag,message)]

def grpcFrames (stream : Bytes) : List (UInt8 × Bytes) := (allFrames.run () stream).out

theorem grpcFrames_wait {stream : Bytes} (h : ¬ FrontComplete stream) : grpcFrames stream = [] := by
  have hwait : allFrames.inspect () stream = .wait () := if_neg fun hfront => h hfront.1
  rw [grpcFrames, FrameDecoder.run_wait hwait]

theorem grpcFrames_frame {stream : Bytes} (h : FrontComplete stream) :
    grpcFrames stream = (byteAt stream 0,slice stream 5 (5 + be32At stream 1)) ::
      grpcFrames (stream.drop (5 + be32At stream 1)) := by
  have hframe : allFrames.inspect () stream = .frame () (5 + be32At stream 1)
      [(byteAt stream 0,slice stream 5 (5 + be32At stream 1))] := if_pos ⟨h,rfl⟩
  rw [grpcFrames, FrameDecoder.run_frame hframe, Decoded.after_out, List.singleton_append,
    grpcFrames]

theorem grpcFrames_append (stream more : Bytes) : grpcFrames stream <+: grpcFrames (stream ++ more) := by
  have hfault : (allFrames.run () stream).fault = none := by
    cases (allFrames.run () stream).fault with
    | none => rfl
    | some e => cases e
  rw [grpcFrames, grpcFrames, FrameDecoder.run_append _ _ _ _ hfault]
  exact List.prefix_append ..

theorem frames_induction {P : Bytes → Prop} (wait : ∀ stream, ¬ FrontComplete stream → P stream)
    (frame : ∀ stream, FrontComplete stream → P (stream.drop (5 + be32At stream 1)) → P stream)
    (stream : Bytes) : P stream := by
  induction hlen : stream.length using Nat.strong_induction_on generalizing stream with
  | h n ih =>
    by_cases hfront : FrontComplete stream
    · have hpos := hfront.1
      apply frame stream hfront
      apply ih _ _ _ rfl
      rw [List.length_drop]
      omega
    · exact wait stream hfront

theorem grpcFrames_length (stream : Bytes) :
    ∀ frame ∈ grpcFrames stream, frame.2.length < 4294967296 := by
  induction stream using frames_induction with
  | wait stream hfront => simp [grpcFrames_wait hfront]
  | frame stream hfront ih =>
    have hlen := be32At_lt stream 1
    rw [grpcFrames_frame hfront, List.forall_mem_cons]
    refine ⟨?_, ih⟩
    rw [slice_length]
    omega

/-! ## The buffer -/

/-- A whole frame stays at the front once there is one that is not taken. -/
theorem frontComplete_grpcHunks_iff (stream : Bytes) :
    FrontComplete (grpcHunks stream).1 ↔ ∃ frame ∈ grpcFrames stream, frame.1 ≠ 0 := by
  induction stream using frames_induction with
  | wait stream hfront => simp [grpcFrames_wait hfront, grpcHunks_wait fun h => hfront h.1, hfront]
  | frame stream hfront ih =>
    simp only [grpcFrames_frame hfront, List.mem_cons, exists_eq_or_imp]
    by_cases hflag : byteAt stream 0 = 0
    · rw [(grpcHunks_frame_parts hfront hflag).1, ih]
      simp [hflag]
    · rw [grpcHunks_wait fun h => hflag h.2]
      exact iff_of_true hfront (.inl hflag)

theorem grpcHunks_frames {stream : Bytes} (h : ∀ frame ∈ grpcFrames stream, frame.1 = 0) :
    (grpcHunks stream).2 =
      (grpcFrames stream).flatMap fun frame => (decodeGrpcHunkMessage frame.2).toList := by
  induction stream using frames_induction with
  | wait stream hfront => simp [grpcFrames_wait hfront, grpcHunks_wait fun h => hfront h.1]
  | frame stream hfront ih =>
    rw [grpcFrames_frame hfront, List.forall_mem_cons] at h
    rw [grpcFrames_frame hfront, (grpcHunks_frame_parts hfront h.1).2, List.flatMap_cons, ih h.2]

/-- After no push is there a whole frame at the front of the buffer. -/
def Progresses (pieces : List Bytes) : Prop :=
  ∀ before, before <+: pieces → ¬ FrontComplete (grpcPushAll [] before).1

theorem progresses_iff (pieces : List Bytes) :
    Progresses pieces ↔ ∀ frame ∈ grpcFrames pieces.flatten, frame.1 = 0 := by
  have hbefore (before : List Bytes) : ¬ FrontComplete (grpcPushAll [] before).1 ↔
      ∀ frame ∈ grpcFrames before.flatten, frame.1 = 0 := by
    rw [grpcPushAll_flatten, frontComplete_grpcHunks_iff]
    simp
  constructor
  · intro h
    exact (hbefore pieces).mp (h pieces (List.prefix_refl pieces))
  · intro h before hprefix
    rw [hbefore]
    intro frame hmem
    obtain ⟨after,rfl⟩ := hprefix
    rw [List.flatten_append] at h
    exact h frame ((grpcFrames_append _ _).subset hmem)

/-! ## The fields of a message -/

/-- A payload is field 1. -/
def payloadOf : Protobuf.Field → Option Bytes
  | ⟨1, .bytes payload⟩ => some payload
  | _ => none

def payloadFields (message : Bytes) : List Bytes := (Protobuf.fields message).filterMap payloadOf

example : payloadFields [0x0a, 0x01, 0x41, 0x10, 0x07, 0x0a, 0x02, 0x42, 0x43] =
    [[0x41], [0x42, 0x43]] := by decide

theorem readField_payload (message : Bytes) :
    (Protobuf.readField (0x0a :: message)).map Prod.fst =
      ((Protobuf.readVarint message).bind fun r => Protobuf.takeBytes r.1 (message.drop r.2)).map
        fun payload => ⟨1, .bytes payload⟩ := by
  rw [Protobuf.readField_cons (by decide)]
  change Option.map _ (Option.map _ (Protobuf.readValue 2 message)) = _
  rw [Protobuf.readValue]
  simp [Option.map_bind, Function.comp_def]

/-- Of the payloads of a message the first comes out, and that only if nothing is before it. -/
theorem decodeGrpcHunkMessage_fields {message : Bytes} (h : message.length < 4294967296) :
    (decodeGrpcHunkMessage message).toList =
      if message.head? = some 0x0a then (payloadFields message).take 1 else [] := by
  by_cases htag : message.head? = some 0x0a
  · obtain ⟨message,rfl⟩ : ∃ message', message = 0x0a :: message' := List.head?_eq_some_iff.mp htag
    rw [List.length_cons] at h
    have hhead := Protobuf.fields_head (0x0a :: message)
    rw [readField_payload, ← decodeGrpcHunkMessage_tagged (by omega)] at hhead
    rw [if_pos htag, payloadFields]
    cases hdecode : decodeGrpcHunkMessage (0x0a :: message) with
    | none =>
      rw [hdecode, Option.map_none, List.head?_eq_none_iff] at hhead
      simp [hhead]
    | some payload =>
      rw [hdecode, Option.map_some, List.head?_eq_some_iff] at hhead
      obtain ⟨more,hmore⟩ := hhead
      simp [hmore, payloadOf]
  · rw [if_neg htag, decodeGrpcHunkMessage_untagged htag]
    rfl

theorem toList_prefix_payloadFields {message : Bytes} (h : message.length < 4294967296) :
    (decodeGrpcHunkMessage message).toList <+: payloadFields message := by
  rw [decodeGrpcHunkMessage_fields h]
  split
  case isTrue => exact List.take_prefix ..
  case isFalse => exact List.nil_prefix

theorem toList_eq_payloadFields_iff {message : Bytes} (h : message.length < 4294967296) :
    (decodeGrpcHunkMessage message).toList = payloadFields message ↔
      payloadFields message = [] ∨
        (message.head? = some 0x0a ∧ (payloadFields message).length = 1) := by
  rw [decodeGrpcHunkMessage_fields h]
  by_cases htag : message.head? = some 0x0a
  · rw [if_pos htag, List.take_eq_self_iff, ← List.length_eq_zero_iff]
    simp only [htag, true_and]
    omega
  · rw [if_neg htag, or_iff_left fun h => htag h.1]
    exact eq_comm

/-! ## What the pushes return -/

theorem flatMap_length_le {α β : Type*} {f g : α → List β} {l : List α}
    (h : ∀ x ∈ l, f x <+: g x) : (l.flatMap f).length ≤ (l.flatMap g).length := by
  induction l with
  | nil => simp
  | cons x l ih =>
    rw [List.forall_mem_cons] at h
    simp only [List.flatMap_cons, List.length_append]
    exact Nat.add_le_add h.1.length_le (ih h.2)

theorem flatMap_eq_iff_of_prefix {α β : Type*} {f g : α → List β} {l : List α}
    (h : ∀ x ∈ l, f x <+: g x) : l.flatMap f = l.flatMap g ↔ ∀ x ∈ l, f x = g x := by
  constructor
  · intro heq
    induction l with
    | nil => simp
    | cons x l ih =>
      rw [List.forall_mem_cons] at h ⊢
      obtain ⟨more,hmore⟩ := h.1
      have hle := flatMap_length_le h.2
      rw [List.flatMap_cons, List.flatMap_cons, ← hmore, List.append_assoc,
        List.append_cancel_left_eq] at heq
      have hnil : more = [] := by
        apply List.length_eq_zero_iff.mp
        rw [heq, List.length_append] at hle
        omega
      rw [hnil] at hmore heq
      exact ⟨by simpa using hmore, ih h.2 heq⟩
  · exact fun heq => List.flatMap_congr heq

/-- The payloads of all messages come out, in their order. -/
def KeepsPayloads (pieces : List Bytes) : Prop :=
  (grpcPushAll [] pieces).2 = (grpcFrames pieces.flatten).flatMap fun frame => payloadFields frame.2

theorem keepsPayloads_iff {pieces : List Bytes}
    (h : ∀ frame ∈ grpcFrames pieces.flatten, frame.1 = 0) :
    KeepsPayloads pieces ↔ ∀ frame ∈ grpcFrames pieces.flatten,
      payloadFields frame.2 = [] ∨
        (frame.2.head? = some 0x0a ∧ (payloadFields frame.2).length = 1) := by
  have hlen := grpcFrames_length pieces.flatten
  rw [KeepsPayloads, grpcPushAll_flatten, grpcHunks_frames h,
    flatMap_eq_iff_of_prefix fun frame hmem => toList_prefix_payloadFields (hlen frame hmem)]
  exact forall₂_congr fun frame hmem => toList_eq_payloadFields_iff (hlen frame hmem)

/-- One frame with a flag holds up all that follow it; and of a message, the decoder looks at
the first field alone. -/
theorem progresses_and_keepsPayloads_iff (pieces : List Bytes) :
    (Progresses pieces ∧ KeepsPayloads pieces) ↔
      ∀ frame ∈ grpcFrames pieces.flatten, frame.1 = 0 ∧
        (payloadFields frame.2 = [] ∨
          (frame.2.head? = some 0x0a ∧ (payloadFields frame.2).length = 1)) := by
  rw [progresses_iff, forall₂_and]
  exact and_congr_right keepsPayloads_iff

/-- A frame with the flag, and one with two payloads. -/
theorem compressed_stays_repeated_is_dropped :
    ¬ Progresses [[1, 0, 0, 0, 0]] ∧
      ¬ KeepsPayloads [[0, 0, 0, 0, 6, 0x0a, 1, 0x41, 0x0a, 1, 0x42]] := by
  have hempty : ¬ FrontComplete [] := by decide
  constructor
  · intro h
    have hwait : ¬ (FrontComplete [1, 0, 0, 0, 0] ∧ byteAt [1, 0, 0, 0, 0] 0 = 0) := by decide
    apply h [[1, 0, 0, 0, 0]] (List.prefix_refl _)
    rw [grpcPushAll_flatten, List.flatten_singleton, grpcHunks_wait hwait]
    decide
  · intro h
    have hfront : FrontComplete [0, 0, 0, 0, 6, 0x0a, 1, 0x41, 0x0a, 1, 0x42] := by decide
    rw [KeepsPayloads, grpcPushAll_flatten, List.flatten_singleton, grpcFrames_frame hfront,
      grpcHunks_frame hfront rfl] at h
    change _ ++ (grpcHunks []).2 = List.flatMap _ (_ :: grpcFrames []) at h
    rw [grpcFrames_wait hempty, grpcHunks_wait fun hwhole => hempty hwhole.1] at h
    revert h
    decide

end AtlasKernel.H2
