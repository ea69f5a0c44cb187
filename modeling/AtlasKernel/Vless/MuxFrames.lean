import AtlasKernel.Vless.XudpCodec

/-! The frames of mux.cool and what the XUDP reader makes of them. A frame has a payload,
with its length, only if the first bit of its options is set; the reader takes a length
behind the metadata of every frame. Source: `adapter/vless.rs`. -/
namespace AtlasKernel.Vless
open AtlasKernel.Lib

/-! ## The grammar -/

/-- The metadata of a frame. A target stands behind its network; whatever else there is
comes after the target. -/
structure MuxMetadata where
  id : UInt16
  status : UInt8
  option : UInt8
  target : Option (UInt8 × Endpoint)
  more : Bytes
deriving DecidableEq, Repr

def muxTargetBytes : Option (UInt8 × Endpoint) → Bytes
  | none => []
  | some (network, endpoint) =>
    network :: be16 endpoint.port.toNat ++ endpoint.host.bytes vlessCodes

def MuxMetadata.bytes (m : MuxMetadata) : Bytes :=
  be16 m.id.toNat ++ m.status :: m.option :: (muxTargetBytes m.target ++ m.more)

/-- The target of a packet; the other network is TCP. -/
def MuxMetadata.udpTarget (m : MuxMetadata) : Option TargetAddress :=
  match m.target with
  | some (network, endpoint) => if network = 2 then some ⟨endpoint.host.text, endpoint.port⟩ else none
  | none => none

structure MuxFrame where
  metadata : MuxMetadata
  data : Bytes
  hostFits : ∀ t ∈ metadata.target, t.2.host.Fits
  noTarget : metadata.target = none → metadata.more = []
  metadataSize : metadata.bytes.length < 65536
  dataSize : data.length < 65536
  noData : metadata.option &&& 1 = 0 → data = []

namespace MuxFrame

/-- The first bit of the options: a payload follows. -/
def HasPayload (f : MuxFrame) : Prop := f.metadata.option &&& 1 ≠ 0

instance (f : MuxFrame) : Decidable f.HasPayload := inferInstanceAs (Decidable (_ ≠ _))

def bytes (f : MuxFrame) : Bytes :=
  be16 f.metadata.bytes.length ++ f.metadata.bytes ++
    if f.HasPayload then be16 f.data.length ++ f.data else []

/-- The packet in a frame: its data, if it has some; that of a keep-alive is discarded. -/
def packet (f : MuxFrame) : Option XudpPacket :=
  if f.HasPayload ∧ f.metadata.status ≠ 4 ∧ f.data ≠ [] then some ⟨f.metadata.udpTarget, f.data⟩
  else none

def piece (f : MuxFrame) : Piece := ⟨f.bytes, f.packet⟩

end MuxFrame

/-- The frames, one after another. -/
def muxStream (frames : List MuxFrame) : Bytes := frames.flatMap MuxFrame.bytes

/-- The reader has taken whole frames and given out their packets, in order, and it waits
for more only if the next frame is not there. -/
structure TakesFrames (frames : List MuxFrame) (got : Bytes) (r : XudpReader) : Prop where
  no_error : ∀ err, r.answer ≠ some (.error err)
  in_order : ∃ taken left, frames = taken ++ left ∧ got = muxStream taken ++ r.buffer ∧
    r.packets = taken.filterMap MuxFrame.packet ∧
    (r.answer = some (.ok none) → ∀ frame ∈ left.head?, ¬ frame.bytes <+: r.buffer)

/-! ## Frames with a payload -/

theorem MuxMetadata.bytes_status (m : MuxMetadata) : byteAt m.bytes 2 = m.status := by
  simp [bytes, byteAt, be16]

theorem MuxMetadata.bytes_option (m : MuxMetadata) : byteAt m.bytes 3 = m.option := by
  simp [bytes, byteAt, be16]

theorem MuxMetadata.bytes_length (m : MuxMetadata) : 4 ≤ m.bytes.length := by
  simp [bytes]
  omega

theorem MuxFrame.decodeTarget (f : MuxFrame) :
    Vless.decodeTarget f.metadata.bytes = .ok f.metadata.udpTarget := by
  cases htarget : f.metadata.target with
  | none =>
    have hlen : ¬ (4 < f.metadata.bytes.length ∧ byteAt f.metadata.bytes 4 = 2) := by
      simp [MuxMetadata.bytes, htarget, muxTargetBytes, f.noTarget htarget]
    rw [Vless.decodeTarget, if_neg hlen, MuxMetadata.udpTarget, htarget]
  | some t =>
    obtain ⟨network,endpoint⟩ := t
    have hfits : endpoint.host.Fits := f.hostFits _ htarget
    have hdrop : f.metadata.bytes.drop 5 =
        be16 endpoint.port.toNat ++ (endpoint.host.bytes vlessCodes ++ f.metadata.more) := by
      simp [MuxMetadata.bytes, htarget, muxTargetBytes, be16]
    have hlong : 4 < f.metadata.bytes.length := by
      simp [MuxMetadata.bytes, htarget, muxTargetBytes]
      omega
    have hnetwork : byteAt f.metadata.bytes 4 = network := by
      simp [MuxMetadata.bytes, htarget, muxTargetBytes, byteAt, be16]
    rw [Vless.decodeTarget, hnetwork, hdrop, decodePortThenAddress_endpoint hfits, MuxMetadata.udpTarget, htarget]
    by_cases hudp : network = 2
    · simp [hudp, hlong, Except.map]
    · simp [hudp]

theorem MuxFrame.bytes_payload {f : MuxFrame} (h : f.HasPayload) :
    f.bytes = xudpFrame f.metadata.bytes f.data := by
  simp [bytes, h, xudpFrame]

theorem MuxFrame.packet_eq {f : MuxFrame} :
    f.packet = packetOf f.metadata.bytes f.data f.metadata.udpTarget := by
  rw [packet, packetOf, MuxMetadata.bytes_status, MuxMetadata.bytes_option]
  by_cases hpayload : f.HasPayload
  · by_cases hstatus : f.metadata.status = 4
    · simp [hstatus]
    · have hoption : f.metadata.option &&& 1 ≠ 0 := hpayload
      by_cases hdata : f.data = []
      · simp [hdata]
      · simp [hpayload, hstatus, hoption, hdata]
  · have hoption : f.metadata.option &&& 1 = 0 := not_not.mp hpayload
    simp [hpayload, hoption]

theorem MuxFrame.HasPayload.taken {f : MuxFrame} (h : f.HasPayload) : f.piece.Taken := by
  intro buffer more hbuffer
  rw [piece, bytes_payload h, packet_eq] at *
  exact xudpTurn_xudpFrame f.metadata.bytes_length f.metadataSize f.dataSize f.decodeTarget hbuffer

/-! ## Exactly when frames are taken as they stand -/

theorem muxStream_pieces (frames : List MuxFrame) :
    (frames.map MuxFrame.piece).flatMap Piece.bytes = muxStream frames := by
  simp [muxStream, List.flatMap_map, MuxFrame.piece]

theorem muxStream_append (frames frames' : List MuxFrame) :
    muxStream (frames ++ frames') = muxStream frames ++ muxStream frames' := by
  simp [muxStream]

theorem MuxFrame.bytes_ne (f : MuxFrame) : f.bytes ≠ [] := by
  simp [bytes, be16]

theorem muxStream_eq_nil {frames : List MuxFrame} (h : muxStream frames = []) : frames = [] := by
  cases frames with
  | nil => rfl
  | cons f frames =>
    rw [muxStream, List.flatMap_cons, List.append_eq_nil_iff] at h
    exact absurd h.1 f.bytes_ne

/-- Two beginnings of a list of frames are told apart by their bytes. -/
theorem muxStream_inj {frames taken left taken' left' : List MuxFrame} (h : frames = taken ++ left)
    (h' : frames = taken' ++ left') (hbytes : muxStream taken = muxStream taken') :
    taken = taken' ∧ left = left' := by
  rw [h] at h'
  rcases List.append_eq_append_iff.mp h' with ⟨more,rfl,rfl⟩ | ⟨more,rfl,rfl⟩
  · rw [muxStream_append, List.self_eq_append_right] at hbytes
    rw [muxStream_eq_nil hbytes]
    simp
  · rw [muxStream_append, List.append_right_eq_self] at hbytes
    rw [muxStream_eq_nil hbytes]
    simp

theorem takesFrames_of_payloads {frames : List MuxFrame} (h : ∀ f ∈ frames, f.HasPayload)
    {got : Bytes} {r : XudpReader} (hgot : got <+: muxStream frames)
    (hr : XudpReader.Receives got r) : TakesFrames frames got r := by
  have htaken : ∀ piece ∈ frames.map MuxFrame.piece, piece.Taken := by
    intro piece hpiece
    obtain ⟨f,hf,rfl⟩ := List.mem_map.mp hpiece
    exact (h f hf).taken
  rw [← muxStream_pieces] at hgot
  obtain ⟨_,_,hat⟩ := hr.at htaken hgot
  obtain ⟨taken,left,hsplit,rfl,rfl⟩ := List.map_eq_append_iff.mp hat.split
  refine ⟨hat.answered,taken,left,hsplit,?_,?_,?_⟩
  · rw [← muxStream_pieces, ← hat.buffered]
  · rw [hat.handed, List.filterMap_map]
    rfl
  · intro hanswer f hf hwhole
    have hmem : f ∈ frames := hsplit ▸ List.mem_append_right taken (List.mem_of_mem_head? hf)
    exact (h f hmem).taken.not_incomplete hwhole (hat.waits hanswer)

theorem takeXudpPacket_shorter {buffer rest : Bytes} {packet : XudpPacket}
    (h : takeXudpPacket buffer = (.ok (some packet), rest)) : rest.length < buffer.length := by
  induction buffer using takeXudpPacket.induct with
  | case1 buffer hturn =>
    rw [takeXudpPacket_incomplete hturn] at h
    cases h
  | case2 buffer err hturn =>
    rw [takeXudpPacket] at h
    split at h <;> simp_all
  | case3 buffer len hturn ih =>
    rw [takeXudpPacket_skip hturn] at h
    have hlt := ih h
    rw [List.length_drop] at hlt
    omega
  | case4 buffer len packet hturn =>
    obtain ⟨hpos,hle⟩ := xudpTurn_frame hturn
    rw [takeXudpPacket_packet hturn] at h
    cases h
    rw [List.length_drop]
    omega

/-- Who keeps asking is told in the end that nothing more is there, or of an error. -/
theorem XudpReader.Receives.exists_answer {got : Bytes} {r : XudpReader}
    (h : XudpReader.Receives got r) : ∃ r', XudpReader.Receives got r' ∧
      (r'.answer = some (.ok none) ∨ ∃ err, r'.answer = some (.error err)) := by
  induction hlen : r.buffer.length using Nat.strong_induction_on generalizing r with
  | _ n ih =>
    cases hcall : takeXudpPacket r.buffer with
    | mk answer rest =>
      cases answer with
      | error err =>
        refine ⟨r.take,h.take,.inr ⟨err,?_⟩⟩
        rw [XudpReader.take, hcall]
      | ok found =>
        cases found with
        | none =>
          refine ⟨r.take,h.take,.inl ?_⟩
          rw [XudpReader.take_none hcall]
        | some packet =>
          have hshort := takeXudpPacket_shorter hcall
          refine ih _ ?_ h.take rfl
          rw [XudpReader.take_packet hcall, ← hlen]
          exact hshort

/-- The metadata of a frame with a length of zero behind it: what the reader waits for if
the frame has no payload. -/
def MuxFrame.lengthened (f : MuxFrame) : Piece := ⟨xudpFrame f.metadata.bytes [], none⟩

theorem MuxFrame.lengthened_taken (f : MuxFrame) : f.lengthened.Taken := by
  intro buffer more hbuffer
  have hturn := xudpTurn_xudpFrame f.metadata.bytes_length f.metadataSize (by simp) f.decodeTarget
    hbuffer
  have hnone : packetOf f.metadata.bytes [] f.metadata.udpTarget = none := by
    simp [packetOf]
  rw [hnone] at hturn
  exact hturn

theorem MuxFrame.lengthened_bytes {f : MuxFrame} (h : ¬ f.HasPayload) :
    f.lengthened.bytes = f.bytes ++ [0, 0] := by
  simp [lengthened, xudpFrame, bytes, h, be16]

/-- Who has got a frame without payload and waits has not taken it. -/
theorem buffer_of_waits {before : List MuxFrame} {f : MuxFrame} (hbefore : ∀ g ∈ before, g.HasPayload)
    (hf : ¬ f.HasPayload) {r : XudpReader} (hr : XudpReader.Receives (muxStream (before ++ [f])) r)
    (hnone : r.answer = some (.ok none)) : r.buffer = f.bytes := by
  have htaken : ∀ piece ∈ before.map MuxFrame.piece ++ [f.lengthened], piece.Taken := by
    intro piece hpiece
    rcases List.mem_append.mp hpiece with hmem | hmem
    · obtain ⟨g,hg,rfl⟩ := List.mem_map.mp hmem
      exact (hbefore g hg).taken
    · rw [List.mem_singleton.mp hmem]
      exact f.lengthened_taken
  have hall : (before.map MuxFrame.piece ++ [f.lengthened]).flatMap Piece.bytes =
      muxStream (before ++ [f]) ++ [0, 0] := by
    rw [List.flatMap_append, muxStream_pieces, muxStream_append]
    simp [muxStream, MuxFrame.lengthened_bytes hf]
  have hgot : muxStream (before ++ [f]) <+:
      (before.map MuxFrame.piece ++ [f.lengthened]).flatMap Piece.bytes := by
    rw [hall]
    exact List.prefix_append _ _
  obtain ⟨taken,left,hat⟩ := hr.at htaken hgot
  have hsplit := hat.split
  have hbuffered := hat.buffered
  cases left.eq_nil_or_concat with
  | inl hnil =>
    -- two more bytes would have been needed
    rw [hnil, List.append_nil] at hsplit
    rw [← hsplit, hall] at hbuffered
    have hlen := congrArg List.length hbuffered
    simp at hlen
  | inr hconcat =>
    obtain ⟨init,last,rfl⟩ := hconcat
    rw [List.concat_eq_append, ← List.append_assoc] at hsplit
    obtain ⟨hinit,-⟩ := List.append_singleton_inj.mp hsplit
    obtain ⟨taken,init,rfl,rfl,rfl⟩ := List.map_eq_append_iff.mp hinit
    rw [muxStream_pieces, List.append_assoc, muxStream_append] at hbuffered
    have hbuffer := List.append_cancel_left hbuffered
    cases init with
    | nil => simpa [muxStream] using hbuffer.symm
    | cons g init =>
      -- the next frame has a payload, so it would have been taken
      have hg : g ∈ taken ++ g :: init := by simp
      have hwhole : g.piece.bytes <+: r.buffer := by
        rw [← hbuffer]
        exact List.prefix_append _ _
      exact absurd (hat.waits hnone) ((hbefore g hg).taken.not_incomplete hwhole)

/-- A frame without payload is waited for when it is there. -/
theorem exists_not_takesFrames {before after : List MuxFrame} {f : MuxFrame}
    (hbefore : ∀ g ∈ before, g.HasPayload) (hf : ¬ f.HasPayload) :
    ∃ r, XudpReader.Receives (muxStream (before ++ [f])) r ∧
      ¬ TakesFrames (before ++ f :: after) (muxStream (before ++ [f])) r := by
  obtain ⟨r,hr,hanswer⟩ := (XudpReader.Receives.new.append (muxStream (before ++ [f]))).exists_answer
  rw [List.nil_append] at hr
  refine ⟨r,hr,fun h => ?_⟩
  cases hanswer with
  | inr herr =>
    obtain ⟨err,herr⟩ := herr
    exact h.no_error err herr
  | inl hnone =>
    obtain ⟨taken,left,hsplit,hbytes,-,hwaits⟩ := h.in_order
    have hbuffer := buffer_of_waits hbefore hf hr hnone
    have hone : muxStream [f] = f.bytes := by simp [muxStream]
    rw [hbuffer, muxStream_append, hone] at hbytes
    obtain ⟨-,rfl⟩ := muxStream_inj rfl hsplit (List.append_cancel_right hbytes)
    exact hwaits hnone f rfl ⟨[],by simp [hbuffer]⟩

/-- The frames of a stream are taken as they stand, under every order of arrivals and
calls, exactly if each of them has a payload. -/
theorem frames_taken_iff (frames : List MuxFrame) :
    (∀ got r, got <+: muxStream frames → XudpReader.Receives got r → TakesFrames frames got r) ↔
      ∀ f ∈ frames, f.HasPayload := by
  refine ⟨fun h => ?_,fun h got r => takesFrames_of_payloads h⟩
  by_contra hdataless
  obtain ⟨before,f,after,rfl,hbefore,hf⟩ := exists_first hdataless
  obtain ⟨r,hr,hnot⟩ := @exists_not_takesFrames before after f hbefore hf
  refine hnot (h _ r ?_ hr)
  simp [muxStream]

/-- The end of session 0. -/
def endFrame : MuxFrame where
  metadata := ⟨0, 3, 0, none, []⟩
  data := []
  hostFits := by simp
  noTarget _ := rfl
  metadataSize := by decide
  dataSize := by decide
  noData _ := rfl

/-- A packet of one byte, for the target of the session. -/
def keepFrame : MuxFrame where
  metadata := ⟨0, 2, 1, none, []⟩
  data := [7]
  hostFits := by simp
  noTarget _ := rfl
  metadataSize := by decide
  dataSize := by decide
  noData := by decide

/-- The head of the frame behind an end frame is swallowed: the rest of it is an error. -/
theorem end_frame_swallows_next : ¬ ∀ frames got r, got <+: muxStream frames →
    XudpReader.Receives got r → TakesFrames frames got r := by
  intro h
  have hr := (XudpReader.Receives.new.append (muxStream [endFrame, keepFrame])).take
  refine (h [endFrame, keepFrame] _ _ (List.prefix_refl _) hr).no_error
    "invalid XUDP metadata length: 1" ?_
  decide +kernel

end AtlasKernel.Vless
