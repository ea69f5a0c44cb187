import AtlasKernel.Lib.Bytes
import AtlasKernel.Lib.FrameDecoder

/-! The frames of an AnyTLS session: command, stream id, 16-bit length, data.
Source: `adapter/anytls.rs`. -/
namespace AtlasKernel.AnyTls
open AtlasKernel.Lib FrameDecoder

def cmdWaste : UInt8 := 0
def cmdSyn : UInt8 := 1
def cmdPush : UInt8 := 2
def cmdFin : UInt8 := 3
def cmdSettings : UInt8 := 4
def cmdAlert : UInt8 := 5
def cmdUpdatePaddingScheme : UInt8 := 6
def cmdSynack : UInt8 := 7
def cmdHeartRequest : UInt8 := 8
def cmdHeartResponse : UInt8 := 9
def headerLen : Nat := 7

structure Frame where
  cmd : UInt8
  streamId : UInt32
  data : Bytes
deriving DecidableEq, Repr

def appendFrame (out : Bytes) (cmd : UInt8) (streamId : UInt32) (data : Bytes) :
    Except String Bytes :=
  if 65535 < data.length then .error "AnyTLS frame is too large"
  else .ok (out ++ (cmd :: (be32 streamId.toNat ++ (be16 data.length ++ data))))

/-- The frame at the front of the buffer, and what `buffer.advance` and `split_to` leave. -/
def decodeFrame (buffer : Bytes) : Option (Frame × Bytes) :=
  if buffer.length < headerLen then none
  else if buffer.length < headerLen + be16At buffer 5 then none
  else some (⟨byteAt buffer 0, UInt32.ofNat (be32At buffer 1),
    slice buffer headerLen (headerLen + be16At buffer 5)⟩,
    buffer.drop (headerLen + be16At buffer 5))

namespace Frame

/-- The length field has room for the data. -/
def WellFormed (f : Frame) : Prop := f.data.length ≤ 65535

instance (f : Frame) : Decidable f.WellFormed := inferInstanceAs (Decidable (_ ≤ _))

def bytes (f : Frame) : Bytes :=
  f.cmd :: (be32 f.streamId.toNat ++ (be16 f.data.length ++ f.data))

theorem bytes_length (f : Frame) : f.bytes.length = headerLen + f.data.length := by
  simp only [bytes, headerLen, List.length_cons, List.length_append, be32_length, be16_length]
  omega

def waste (n : Nat) : Frame := ⟨cmdWaste, 0, List.replicate n 0⟩

end Frame

theorem appendFrame_ok {f : Frame} (h : f.WellFormed) (out : Bytes) :
    appendFrame out f.cmd f.streamId f.data = .ok (out ++ f.bytes) :=
  if_neg (Nat.not_lt.mpr h)

theorem appendFrame_large {f : Frame} (h : ¬ f.WellFormed) (out : Bytes) :
    appendFrame out f.cmd f.streamId f.data = .error "AnyTLS frame is too large" :=
  if_pos (Nat.not_le.mp h)

theorem appendFrame_eq_ok {f : Frame} {out out' : Bytes}
    (h : appendFrame out f.cmd f.streamId f.data = .ok out') :
    f.WellFormed ∧ out' = out ++ f.bytes := by
  by_cases hf : f.WellFormed
  · rw [appendFrame_ok hf] at h
    cases h
    exact ⟨hf, rfl⟩
  · rw [appendFrame_large hf] at h
    cases h

/-! ## Decoding -/

theorem be16At_bytes {f : Frame} (h : f.WellFormed) (rest : Bytes) :
    be16At (f.bytes ++ rest) 5 = f.data.length := by
  have hlen := ofBe16_be16 f.data.length
  rw [Nat.mod_eq_of_lt (Nat.lt_succ_of_le h)] at hlen
  exact hlen

theorem decodeFrame_bytes {f : Frame} (h : f.WellFormed) (rest : Bytes) :
    decodeFrame (f.bytes ++ rest) = some (f, rest) := by
  have hlen : f.bytes.length = headerLen + f.data.length := f.bytes_length
  have hid : be32At (f.bytes ++ rest) 1 = f.streamId.toNat := by
    have hread := be32At_be32 f.streamId.toNat (be16 f.data.length ++ f.data ++ rest)
    rw [Nat.mod_eq_of_lt f.streamId.toNat_lt] at hread
    exact hread
  have hdata : slice (f.bytes ++ rest) headerLen (headerLen + f.data.length) = f.data :=
    slice_middle (f.cmd :: (be32 f.streamId.toNat ++ be16 f.data.length)) f.data rest
  have hrest : (f.bytes ++ rest).drop (headerLen + f.data.length) = rest := by
    rw [← hlen, List.drop_left]
  have hlong : ¬ (f.bytes ++ rest).length < headerLen + f.data.length := by
    rw [List.length_append, hlen]
    omega
  have hshort : ¬ (f.bytes ++ rest).length < headerLen := by omega
  rw [decodeFrame, be16At_bytes h, if_neg hshort, if_neg hlong, hid, hdata, hrest,
    UInt32.ofNat_toNat]
  rfl

theorem header_split {buffer : Bytes} (h : headerLen ≤ buffer.length) :
    ∃ c a₁ a₂ a₃ a₄ l₁ l₂ tail, buffer = [c, a₁, a₂, a₃, a₄, l₁, l₂] ++ tail := by
  rw [headerLen] at h
  rcases buffer with _ | ⟨c,_ | ⟨a₁,_ | ⟨a₂,_ | ⟨a₃,_ | ⟨a₄,_ | ⟨l₁,_ | ⟨l₂,tail⟩⟩⟩⟩⟩⟩⟩
  all_goals first
    | exact ⟨_, _, _, _, _, _, _, _, rfl⟩
    | simp only [List.length_cons, List.length_nil] at h
      omega

/-- What is decoded stands in the buffer, and no frame is longer than its length says. -/
theorem decodeFrame_some {buffer rest : Bytes} {f : Frame}
    (h : decodeFrame buffer = some (f, rest)) : f.WellFormed ∧ buffer = f.bytes ++ rest := by
  rw [decodeFrame] at h
  split at h
  case isTrue => cases h
  case isFalse hshort =>
    split at h
    case isTrue => cases h
    case isFalse hlong =>
      cases h
      obtain ⟨c,a₁,a₂,a₃,a₄,l₁,l₂,tail,rfl⟩ := header_split (Nat.not_lt.mp hshort)
      have hlen : be16At ([c, a₁, a₂, a₃, a₄, l₁, l₂] ++ tail) 5 = ofBe16 l₁ l₂ := rfl
      have hlt := ofBe16_lt l₁ l₂
      rw [hlen] at hlong ⊢
      have htail : ofBe16 l₁ l₂ ≤ tail.length := by
        simp only [headerLen, List.length_append, List.length_cons, List.length_nil] at hlong
        omega
      have hdata : slice ([c, a₁, a₂, a₃, a₄, l₁, l₂] ++ tail) headerLen
          (headerLen + ofBe16 l₁ l₂) = tail.take (ofBe16 l₁ l₂) :=
        slice_append_right [c, a₁, a₂, a₃, a₄, l₁, l₂] tail 0 (ofBe16 l₁ l₂)
      have hdrop : ([c, a₁, a₂, a₃, a₄, l₁, l₂] ++ tail).drop (headerLen + ofBe16 l₁ l₂) =
          tail.drop (ofBe16 l₁ l₂) := by
        have hadd : headerLen = [c, a₁, a₂, a₃, a₄, l₁, l₂].length := rfl
        rw [hadd, List.drop_length_add_append]
      have htake : (tail.take (ofBe16 l₁ l₂)).length = ofBe16 l₁ l₂ :=
        List.length_take_of_le htail
      have hid : be32 (UInt32.ofNat (be32At ([c, a₁, a₂, a₃, a₄, l₁, l₂] ++ tail) 1)).toNat =
          [a₁, a₂, a₃, a₄] := by
        rw [UInt32.toNat_ofNat', Nat.mod_eq_of_lt (be32At_lt ..)]
        exact be32_be32At a₁ a₂ a₃ a₄ (l₁ :: l₂ :: tail)
      rw [hdata, hdrop]
      refine ⟨?_, ?_⟩
      · change (tail.take _).length ≤ 65535
        omega
      · rw [Frame.bytes, hid, htake, be16_ofBe16]
        simp [List.take_append_drop]

theorem decodeFrame_iff (buffer : Bytes) (f : Frame) (rest : Bytes) :
    decodeFrame buffer = some (f, rest) ↔ f.WellFormed ∧ buffer = f.bytes ++ rest := by
  constructor
  · exact decodeFrame_some
  · rintro ⟨h,rfl⟩
    exact decodeFrame_bytes h rest

/-- `while let Some(frame) = decode_frame(&mut buffer)` -/
def frames : FrameDecoder Unit UInt8 Frame Empty where
  inspect _ buffer :=
    match decodeFrame buffer with
    | none => .wait ()
    | some (f, _) => .frame () f.bytes.length [f]
  frame_fits := by
    intro s buf s' n out h
    cases hd : decodeFrame buf with
    | none => simp [hd] at h
    | some r =>
      obtain ⟨_,hbuf⟩ := decodeFrame_some hd
      simp only [hd] at h
      cases h
      have hlen := r.1.bytes_length
      have hpos : 0 < headerLen := by decide
      rw [hbuf, List.length_append]
      omega
  frame_stable := by
    intro s buf s' n out h more
    cases hd : decodeFrame buf with
    | none => simp [hd] at h
    | some r =>
      obtain ⟨hwf,hbuf⟩ := decodeFrame_some hd
      simp only [hd] at h
      rw [hbuf, List.append_assoc, decodeFrame_bytes hwf]
      exact h
  fault_stable := by
    intro s buf s' rest e
    exact e.elim
  wait_stable := fun _ _ => rfl

/-- What the read loop makes of the bytes it has: the frames, and what is left. -/
def decodeFrames (buffer : Bytes) : List Frame × Bytes :=
  ((frames.run () buffer).out, (frames.run () buffer).rest)

theorem decodeFrames_none {buffer : Bytes} (h : decodeFrame buffer = none) :
    decodeFrames buffer = ([], buffer) := by
  have hi : frames.inspect () buffer = .wait () := by simp [frames, h]
  rw [decodeFrames, run_wait hi]

theorem decodeFrames_cons {f : Frame} (h : f.WellFormed) (rest : Bytes) :
    decodeFrames (f.bytes ++ rest) = (f :: (decodeFrames rest).1, (decodeFrames rest).2) := by
  have hi : frames.inspect () (f.bytes ++ rest) = .frame () f.bytes.length [f] := by
    simp [frames, decodeFrame_bytes h]
  rw [decodeFrames, run_frame hi, List.drop_left]
  rfl

theorem decodeFrames_nil : decodeFrames [] = ([], []) := decodeFrames_none rfl

/-- Frames one after another are read back, whatever comes behind them. -/
theorem decodeFrames_append (fs : List Frame) (h : ∀ f ∈ fs, f.WellFormed) (rest : Bytes) :
    decodeFrames (fs.flatMap Frame.bytes ++ rest) =
      (fs ++ (decodeFrames rest).1, (decodeFrames rest).2) := by
  induction fs with
  | nil => rfl
  | cons f fs ih =>
    obtain ⟨hf,hfs⟩ := List.forall_mem_cons.mp h
    rw [List.flatMap_cons, List.append_assoc, decodeFrames_cons hf, ih hfs]
    rfl

end AtlasKernel.AnyTls
