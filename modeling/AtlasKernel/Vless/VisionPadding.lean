import AtlasKernel.Vless.VisionUnpadding
import AtlasKernel.Vless.Xudp

/-! The Vision padding of the VLESS uplink: the block format, the traffic state that
chooses each block's command, the uplink of a bridged stream and the writer of the
mux. Source: `adapter/vless.rs`, `flow.rs`. -/
namespace AtlasKernel.Vless
open AtlasKernel.Lib

def smallFlowCopyBufferSize : Nat := 16 * 1024
def flowCopyBufferSize : Nat := 128 * 1024

def xtlsPadding (content : Option Bytes) (command : UInt8) (uuid : Option Uuid) (long : Bool) :
    Bytes :=
  let content := content.getD []
  let paddingLen := if long ∧ content.length < 900 then 900 - content.length else 0
  (uuid.map Vector.toList).getD [] ++ [command] ++ be16 content.length ++ be16 paddingLen ++
    content ++ List.replicate paddingLen 0

/-! ## Traffic state -/

structure VisionLinkState where
  padding : Bool
  directCopy : Bool
  directSent : Bool
deriving DecidableEq, Repr

structure VisionTrafficState where
  packetFilterRemaining : Int
  isTls : Bool
  isTls12OrAbove : Bool
  isTls13 : Bool
  remainingServerHello : Int
  uplink : VisionLinkState
deriving DecidableEq, Repr

def VisionLinkState.new : VisionLinkState := ⟨true, false, false⟩

def visionPacketFilterLimit : Int := 8
def visionUplinkDirectMinBytes : Nat := 8 * 1024

def VisionTrafficState.new : VisionTrafficState :=
  ⟨visionPacketFilterLimit, false, false, false, -1, .new⟩

def startsWith (data pattern : Bytes) : Bool := pattern.isPrefixOf data

def isTlsHandshake (data : Bytes) : Bool := startsWith data [0x16, 0x03]

/-- The second test is the source's; what it looks for has been answered by the first. -/
def VisionTrafficState.filterTls (s : VisionTrafficState) (data : Bytes) : VisionTrafficState :=
  if s.packetFilterRemaining ≤ 0 then s
  else
    let s := { s with packetFilterRemaining := s.packetFilterRemaining - 1 }
    if data.length < 6 then s
    else if startsWith data [0x16, 0x03] then { s with isTls := true }
    else if startsWith data [0x16, 0x03, 0x03] && data.getD 5 0 == 0x02 then
      let s := { s with
        isTls := true
        isTls12OrAbove := true
        remainingServerHello := ofBe16 (data.getD 3 0) (data.getD 4 0) + 5 }
      if data.tails.any (startsWith · [0x00, 0x2b, 0x00, 0x02, 0x03, 0x04]) then
        { s with isTls13 := true, packetFilterRemaining := 0 }
      else s
    else s

def isCompleteTlsApplicationData (data : Bytes) : Bool :=
  if _h : data = [] then true
  else if data.length < 5 then false
  else if data.take 3 ≠ [0x17, 0x03, 0x03] then false
  else
    let recordLen := ofBe16 (data.getD 3 0) (data.getD 4 0)
    if data.length - 5 < recordLen then false
    else isCompleteTlsApplicationData (data.drop (5 + recordLen))
termination_by data.length
decreasing_by
  simp; omega

structure VisionUplinkDecision where
  command : UInt8
  direct : Bool
deriving DecidableEq, Repr

def VisionUplinkDecision.padding (command : UInt8) : VisionUplinkDecision := ⟨command, false⟩

structure VisionUplinkState where
  traffic : VisionTrafficState
deriving DecidableEq, Repr

namespace VisionUplinkState

def new : VisionUplinkState := ⟨.new⟩

def padding (s : VisionUplinkState) : Bool := s.traffic.uplink.padding

/-- The test for direct mode, on the state after the filter. -/
def wantsDirect (s : VisionTrafficState) (data : Bytes) (peerDirectConfirmed : Bool) : Bool :=
  s.isTls && !s.uplink.directSent && startsWith data [0x17, 0x03, 0x03] &&
    (peerDirectConfirmed || decide (visionUplinkDirectMinBytes ≤ data.length)) &&
    isCompleteTlsApplicationData data

def commandFor (s : VisionUplinkState) (data : Bytes) (peerDirectConfirmed : Bool) :
    VisionUplinkDecision × VisionUplinkState :=
  let traffic := s.traffic.filterTls data
  if isTlsHandshake data then (.padding 0, ⟨traffic⟩)
  else if wantsDirect traffic data peerDirectConfirmed then
    (⟨2, true⟩, ⟨{ traffic with uplink := ⟨false, true, true⟩ }⟩)
  else if !traffic.isTls then
    (.padding 1, ⟨{ traffic with uplink := { traffic.uplink with padding := false } }⟩)
  else (.padding 0, ⟨traffic⟩)

theorem filterTls_uplink (s : VisionTrafficState) (data : Bytes) :
    (s.filterTls data).uplink = s.uplink := by
  unfold VisionTrafficState.filterTls
  split
  · rfl
  · split
    · rfl
    · split
      · rfl
      · split
        · split <;> rfl
        · rfl

/-- A command other than 0 ends the padding, and only such a command does. -/
theorem commandFor_cases (s : VisionUplinkState) (data : Bytes) (peer : Bool) :
    ((s.commandFor data peer).1.command = 0 ∧ (s.commandFor data peer).2.padding = s.padding ∧
      (s.commandFor data peer).1.direct = false) ∨
    ((s.commandFor data peer).1.command = 1 ∧ (s.commandFor data peer).2.padding = false ∧
      (s.commandFor data peer).1.direct = false) ∨
    ((s.commandFor data peer).1.command = 2 ∧ (s.commandFor data peer).2.padding = false ∧
      (s.commandFor data peer).1.direct = true) := by
  have hup := filterTls_uplink s.traffic data
  unfold commandFor
  dsimp only
  by_cases hhello : isTlsHandshake data
  · rw [if_pos hhello]
    exact .inl ⟨rfl,congrArg VisionLinkState.padding hup,rfl⟩
  · rw [if_neg hhello]
    by_cases hdirect : wantsDirect (s.traffic.filterTls data) data peer
    · rw [if_pos hdirect]
      exact .inr (.inr ⟨rfl,rfl,rfl⟩)
    · rw [if_neg hdirect]
      by_cases htls : !(s.traffic.filterTls data).isTls
      · rw [if_pos htls]
        exact .inr (.inl ⟨rfl,rfl,rfl⟩)
      · rw [if_neg htls]
        exact .inl ⟨rfl,congrArg VisionLinkState.padding hup,rfl⟩

end VisionUplinkState

/-! ## What is written -/

/-- One `write_all` of the uplink: a padded block, or a chunk as it is. -/
inductive UplinkWrite where
  | block (content : Option Bytes) (command : UInt8) (uuid : Option Uuid)
  | plain (data : Bytes)
deriving DecidableEq, Repr

namespace UplinkWrite

def bytes : UplinkWrite → Bytes
  | .block content command uuid => xtlsPadding content command uuid true
  | .plain data => data

/-- The sixteen-bit content length of a block is the length of its content. -/
def LengthExact : UplinkWrite → Prop
  | .block content command uuid =>
    let header := match uuid with
      | some _ => (xtlsPadding content command uuid true).drop 16
      | none => xtlsPadding content command none true
    contentLen header = (content.getD []).length
  | .plain _ => True

end UplinkWrite

/-- The uplink of `bridge_vless_stream` behind the first payload; a read of no bytes
ends it. -/
def bridgeUplink (uplink : VisionUplinkState) : List Bytes → List UplinkWrite
  | [] => []
  | data :: reads =>
    if data = [] then []
    else if uplink.padding then
      let r := uplink.commandFor data false
      .block (some data) r.1.command none :: bridgeUplink r.2 reads
    else .plain data :: bridgeUplink uplink reads

/-- Everything the uplink writes after the request header. -/
def bridgeVlessStream (uuid : Uuid) (firstPayload : Option Bytes) (reads : List Bytes) :
    List UplinkWrite :=
  .block firstPayload 0 (some uuid) :: bridgeUplink .new reads

/-! ## The mux writer -/

structure VlessMuxWriter where
  visionUuid : Option Uuid
  visionUuidPending : Bool
  firstPacket : Bool
deriving DecidableEq, Repr

def VlessMuxWriter.new (visionUuid : Option Uuid) : VlessMuxWriter :=
  ⟨visionUuid, visionUuid.isSome, true⟩

def VlessMuxWriter.writeFrame (w : VlessMuxWriter) (frame : Bytes) :
    UplinkWrite × VlessMuxWriter :=
  match w.visionUuid with
  | some uuid =>
    (.block (some frame) 0 (if w.visionUuidPending then some uuid else none),
      { w with visionUuidPending := false })
  | none => (.plain frame, w)

/-- The frames of the packets a worker admits, one after the other, as they are written. -/
def muxFrames (w : VlessMuxWriter) : List (TargetAddress × Bytes) → List UplinkWrite
  | [] => []
  | (target, payload) :: packets =>
    match encodeXudpPacket target payload w.firstPacket with
    | .error _ => muxFrames w packets
    | .ok frame =>
      let r := { w with firstPacket := false }.writeFrame frame
      r.1 :: muxFrames r.2 packets

/-- The frames by themselves. -/
def admittedFrames (firstPacket : Bool) : List (TargetAddress × Bytes) → List Bytes
  | [] => []
  | (target, payload) :: packets =>
    match encodeXudpPacket target payload firstPacket with
    | .error _ => admittedFrames firstPacket packets
    | .ok frame => frame :: admittedFrames false packets

/-! ## Decoding -/

/-- What `VisionUnpaddingState` makes of the writes. -/
def decodeWrites (uuid : Uuid) (writes : List UplinkWrite) : Bytes :=
  ((VisionUnpaddingState.new uuid).push (writes.flatMap UplinkWrite.bytes)).2.bytes

/-- The peer gets the bytes that went in, and every block says how long it is. -/
def Transparent (uuid : Uuid) (writes : List UplinkWrite) (input : Bytes) : Prop :=
  decodeWrites uuid writes = input ∧ ∀ w ∈ writes, w.LengthExact

theorem decodeWrites_run (uuid : Uuid) (writes : List UplinkWrite) : decodeWrites uuid writes =
    emitBytes ((visionScanner uuid).run .unknown (writes.flatMap UplinkWrite.bytes)).2.2 :=
  (push_agrees (new_valid uuid) _).bytes_eq

/-- The block without its UUID: a header of five bytes, the content and the padding. -/
theorem xtlsPadding_none (content : Bytes) (command : UInt8) :
    ∃ pad, pad < 65536 ∧ xtlsPadding (some content) command none true =
      [command] ++ be16 content.length ++ be16 pad ++ (content ++ List.replicate pad 0) := by
  refine ⟨if content.length < 900 then 900 - content.length else 0,?_,?_⟩
  · split <;> omega
  · simp [xtlsPadding]

/-- A block whose content fits its length field is one unit. -/
theorem block_unit (uuid : Uuid) (content : Bytes) (hlen : content.length < 65536)
    (command : UInt8) (hcmd : ¬ 2 < command) (more : Bytes) :
    visionUnit uuid .padding (xtlsPadding (some content) command none true ++ more) =
      some (if command = 0 then .padding else .raw, more,
        content.map .byte ++ if command = 2 then [.direct] else []) := by
  obtain ⟨pad,hpad,hblock⟩ := xtlsPadding_none content command
  rw [hblock]
  generalize hbuf : [command] ++ be16 content.length ++ be16 pad ++
    (content ++ List.replicate pad 0) ++ more = buf
  have hlength : buf.length = 5 + content.length + pad + more.length := by
    rw [← hbuf]
    simp
    omega
  have hcommand : buf.getD 0 0 = command := by rw [← hbuf]; rfl
  have hcontent : contentLen buf = content.length := by
    rw [← hbuf]
    exact ofBe16_of_lt hlen
  have hpadding : paddingLen buf = pad := by
    rw [← hbuf]
    exact ofBe16_of_lt hpad
  have hblocklen : blockLen buf = 5 + content.length + pad := by
    rw [blockLen, hcontent, hpadding]
  have hdrop : buf.drop 5 = content ++ (List.replicate pad 0 ++ more) := by
    rw [← List.append_assoc, ← hbuf]
    rfl
  have hbytes : blockBytes buf = content := by
    rw [blockBytes, List.drop_take, hcontent, hdrop, Nat.add_sub_cancel_left, List.take_left]
  have hrest : buf.drop (blockLen buf) = more := by
    rw [hblocklen, Nat.add_assoc, ← List.drop_drop, hdrop, ← List.append_assoc]
    exact List.drop_left' (by simp)
  rw [visionUnit, if_neg (by omega), hcommand, if_neg hcmd, if_neg (by omega), hbytes, hrest]

/-- The first block: the UUID switches to padding mode. -/
theorem uuid_unit (uuid : Uuid) (more : Bytes) :
    visionUnit uuid .unknown (uuid.toList ++ more) = some (.padding, more, []) := by
  have hlen : uuid.toList.length = 16 := by simp
  have hlong : ¬ (uuid.toList ++ more).length < 16 := by
    rw [List.length_append]
    omega
  rw [visionUnit, if_neg hlong, List.take_left' hlen, if_pos rfl, List.drop_left' hlen]

/-- A block with command 0 and the bytes behind it. -/
theorem run_block (uuid : Uuid) (content : Bytes) (hlen : content.length < 65536) (more : Bytes) :
    emitBytes ((visionScanner uuid).run .padding
      (xtlsPadding (some content) 0 none true ++ more)).2.2 =
      content ++ emitBytes ((visionScanner uuid).run .padding more).2.2 := by
  have hunit : (visionScanner uuid).step .padding (xtlsPadding (some content) 0 none true ++ more) =
      some (.padding, more, content.map .byte ++ []) :=
    block_unit uuid content hlen 0 (by decide) more
  rw [Scanner.run_unit hunit]
  simp

/-- A block that ends the padding and the raw bytes behind it. -/
theorem run_last_block (uuid : Uuid) (content : Bytes) (hlen : content.length < 65536)
    {command : UInt8} (hcmd : command = 1 ∨ command = 2) (more : Bytes) :
    emitBytes ((visionScanner uuid).run .padding
      (xtlsPadding (some content) command none true ++ more)).2.2 = content ++ more := by
  have hunit := block_unit uuid content hlen command (by obtain rfl | rfl := hcmd <;> decide) more
  rw [if_neg (by obtain rfl | rfl := hcmd <;> decide)] at hunit
  rw [run_to_raw hunit]
  obtain rfl | rfl := hcmd <;> simp

/-- The reads that are padded: those up to the block that ends the padding. -/
def paddedReads (uplink : VisionUplinkState) : List Bytes → List Bytes
  | [] => []
  | data :: reads =>
    if uplink.padding then data :: paddedReads (uplink.commandFor data false).2 reads else []

theorem bridgeUplink_plain {uplink : VisionUplinkState} (h : uplink.padding = false)
    {reads : List Bytes} (hne : ∀ data ∈ reads, data ≠ []) :
    bridgeUplink uplink reads = reads.map .plain := by
  induction reads with
  | nil => rfl
  | cons data reads ih =>
    have hrest := ih fun d hd => hne d (List.mem_cons_of_mem _ hd)
    simp [bridgeUplink, hne data List.mem_cons_self, h, hrest]

@[simp] theorem plain_bytes (chunks : List Bytes) :
    (chunks.map UplinkWrite.plain).flatMap UplinkWrite.bytes = chunks.flatten := by
  simp [List.flatMap_map, UplinkWrite.bytes, List.flatMap_id']

/-- The padded uplink decodes to what was read. The induction follows the reads; the
decoder is in padding mode as long as the uplink pads. -/
theorem bridgeUplink_decode (uuid : Uuid) {uplink : VisionUplinkState}
    (hpad : uplink.padding = true) {reads : List Bytes} (hne : ∀ data ∈ reads, data ≠ [])
    (hfit : ∀ data ∈ paddedReads uplink reads, data.length < 65536) :
    emitBytes ((visionScanner uuid).run .padding
      ((bridgeUplink uplink reads).flatMap UplinkWrite.bytes)).2.2 = reads.flatten := by
  induction reads generalizing uplink with
  | nil =>
    rw [Scanner.run_wait rfl]
    rfl
  | cons data reads ih =>
    unfold bridgeUplink
    unfold paddedReads at hfit
    rw [if_neg (hne data List.mem_cons_self), if_pos hpad]
    rw [if_pos hpad] at hfit
    have hlen := hfit data List.mem_cons_self
    have hfit' := fun d hd => hfit d (List.mem_cons_of_mem _ hd)
    have hne' := fun d hd => hne d (List.mem_cons_of_mem _ hd)
    simp only [List.flatMap_cons, UplinkWrite.bytes, List.flatten_cons]
    obtain ⟨hcmd,hnext,_⟩ | ⟨hcmd,hnext,_⟩ | ⟨hcmd,hnext,_⟩ := uplink.commandFor_cases data false
    · rw [hcmd, run_block uuid data hlen, ih (hnext.trans hpad) hne' hfit']
    · rw [hcmd, run_last_block uuid data hlen (.inl rfl), bridgeUplink_plain hnext hne', plain_bytes]
    · rw [hcmd, run_last_block uuid data hlen (.inr rfl), bridgeUplink_plain hnext hne', plain_bytes]

/-- The length field of a block is the length modulo `2 ^ 16`. -/
theorem lengthExact_iff (content : Option Bytes) (command : UInt8) (uuid : Option Uuid) :
    (UplinkWrite.block content command uuid).LengthExact ↔ (content.getD []).length < 65536 := by
  have hmod := ofBe16_be16 (content.getD []).length
  have hlen : contentLen (xtlsPadding content command none true) =
      (content.getD []).length % 65536 := hmod
  have hheader : (UplinkWrite.block content command uuid).LengthExact ↔
      contentLen (xtlsPadding content command none true) = (content.getD []).length := by
    cases uuid with
    | none => exact Iff.rfl
    | some uuid =>
      have hdrop : (xtlsPadding content command (some uuid) true).drop 16 =
          xtlsPadding content command none true := by
        have h16 : uuid.toList.length = 16 := by simp
        simp only [xtlsPadding, Option.map_some, Option.getD_some, List.append_assoc]
        rw [List.drop_left' h16]
        rfl
      simp only [UplinkWrite.LengthExact, hdrop]
  rw [hheader, hlen]
  omega

theorem bridgeUplink_lengthExact (uplink : VisionUplinkState) {reads : List Bytes}
    (hne : ∀ data ∈ reads, data ≠ []) :
    (∀ w ∈ bridgeUplink uplink reads, w.LengthExact) ↔
      ∀ data ∈ paddedReads uplink reads, data.length < 65536 := by
  induction reads generalizing uplink with
  | nil => simp [bridgeUplink, paddedReads]
  | cons data reads ih =>
    have hne' := fun d hd => hne d (List.mem_cons_of_mem _ hd)
    by_cases hpad : uplink.padding
    · simp [bridgeUplink, paddedReads, hne data List.mem_cons_self, hpad, lengthExact_iff,
        ih _ hne']
    · have hpad' : uplink.padding = false := by simpa using hpad
      simp [bridgeUplink_plain hpad' hne, paddedReads, hpad', UplinkWrite.LengthExact]

/-! ## Transparency -/

/-- A read of the bridge loop, and the first payload, with the bounds of their buffers. -/
abbrev LocalRead := { data : Bytes // 0 < data.length ∧ data.length ≤ flowCopyBufferSize }
abbrev FirstPayload := { data : Bytes // 0 < data.length ∧ data.length ≤ smallFlowCopyBufferSize }

/-- The first block, with the UUID in front, and the bytes behind it. -/
theorem run_first_block (uuid : Uuid) (content : Option Bytes)
    (hlen : (content.getD []).length < 65536) (more : Bytes) :
    emitBytes ((visionScanner uuid).run .unknown
      (xtlsPadding content 0 (some uuid) true ++ more)).2.2 =
      content.getD [] ++ emitBytes ((visionScanner uuid).run .padding more).2.2 := by
  have hcontent : xtlsPadding content 0 (some uuid) true =
      uuid.toList ++ xtlsPadding (some (content.getD [])) 0 none true := by
    simp [xtlsPadding]
  have hunit : (visionScanner uuid).step .unknown
      (uuid.toList ++ (xtlsPadding (some (content.getD [])) 0 none true ++ more)) =
      some (.padding, xtlsPadding (some (content.getD [])) 0 none true ++ more, []) :=
    uuid_unit uuid _
  rw [hcontent, List.append_assoc, Scanner.run_unit hunit]
  exact run_block uuid _ hlen more

/-- The uplink of a bridged stream is transparent exactly when every padded read fits
the length field. -/
theorem bridge_transparent_iff (uuid : Uuid) (firstPayload : Option FirstPayload)
    (reads : List LocalRead) :
    Transparent uuid (bridgeVlessStream uuid (firstPayload.map (·.1)) (reads.map (·.1)))
        ((firstPayload.map (·.1)).getD [] ++ (reads.map (·.1)).flatten) ↔
      ∀ data ∈ paddedReads .new (reads.map (·.1)), data.length < 65536 := by
  have hne : ∀ data ∈ reads.map (·.1), data ≠ [] := by
    intro data hd
    obtain ⟨read,_,rfl⟩ := List.mem_map.mp hd
    exact List.length_pos_iff.mp read.2.1
  have hfirst : ((firstPayload.map (·.1)).getD []).length < 65536 := by
    cases firstPayload with
    | none => decide
    | some first =>
      have hle := first.2.2
      simp only [smallFlowCopyBufferSize] at hle
      simp only [Option.map_some, Option.getD_some]
      omega
  have hlengths := bridgeUplink_lengthExact .new hne
  constructor
  · intro h
    exact hlengths.mp fun w hw => h.2 w (List.mem_cons_of_mem _ hw)
  · intro h
    refine ⟨?_,?_⟩
    · rw [decodeWrites_run, bridgeVlessStream, List.flatMap_cons]
      rw [UplinkWrite.bytes, run_first_block uuid _ hfirst, bridgeUplink_decode uuid rfl hne h]
    · intro w hw
      cases hw with
      | head => exact (lengthExact_iff _ 0 (some uuid)).mpr hfirst
      | tail _ hw => exact hlengths.mpr h w hw

/-- Writing one frame: a block with command 0, the first of them with the UUID. -/
theorem mux_decode (uuid : Uuid) (pending firstPacket : Bool)
    (packets : List (TargetAddress × Bytes))
    (hfit : ∀ frame ∈ admittedFrames firstPacket packets, frame.length < 65536) :
    emitBytes ((visionScanner uuid).run (if pending then .unknown else .padding)
      ((muxFrames ⟨some uuid,pending,firstPacket⟩ packets).flatMap UplinkWrite.bytes)).2.2 =
      (admittedFrames firstPacket packets).flatten := by
  induction packets generalizing pending firstPacket with
  | nil =>
    cases pending <;> rw [Scanner.run_wait rfl] <;> rfl
  | cons packet packets ih =>
    obtain ⟨target,payload⟩ := packet
    unfold muxFrames
    unfold admittedFrames at hfit ⊢
    cases henc : encodeXudpPacket target payload firstPacket with
    | error e =>
      simp only [henc] at hfit ⊢
      exact ih pending firstPacket hfit
    | ok frame =>
      simp only [henc] at hfit ⊢
      have hlen := hfit frame List.mem_cons_self
      have hnext := ih false false fun f hf => hfit f (List.mem_cons_of_mem _ hf)
      rw [if_neg (by decide)] at hnext
      simp only [VlessMuxWriter.writeFrame, List.flatMap_cons, UplinkWrite.bytes, List.flatten_cons]
      cases pending with
      | true =>
        rw [if_pos rfl, if_pos rfl, run_first_block uuid (some frame) hlen, hnext]
        rfl
      | false => rw [if_neg (by decide), if_neg (by decide), run_block uuid frame hlen, hnext]

theorem mux_lengthExact (uuid : Uuid) (pending firstPacket : Bool)
    (packets : List (TargetAddress × Bytes)) :
    (∀ w ∈ muxFrames ⟨some uuid,pending,firstPacket⟩ packets, w.LengthExact) ↔
      ∀ frame ∈ admittedFrames firstPacket packets, frame.length < 65536 := by
  induction packets generalizing pending firstPacket with
  | nil => simp [muxFrames, admittedFrames]
  | cons packet packets ih =>
    obtain ⟨target,payload⟩ := packet
    cases henc : encodeXudpPacket target payload firstPacket with
    | error e => simp [muxFrames, admittedFrames, henc, ih]
    | ok frame =>
      simp [muxFrames, admittedFrames, henc, VlessMuxWriter.writeFrame, lengthExact_iff, ih]

/-- The mux writer is transparent exactly when every frame fits the length field. -/
theorem mux_transparent_iff (uuid : Uuid) (packets : List (TargetAddress × Bytes)) :
    Transparent uuid (muxFrames (.new (some uuid)) packets) (admittedFrames true packets).flatten ↔
      ∀ frame ∈ admittedFrames true packets, frame.length < 65536 := by
  have hlengths := mux_lengthExact uuid true true packets
  constructor
  · intro h
    exact hlengths.mp h.2
  · intro h
    refine ⟨?_,hlengths.mpr h⟩
    rw [decodeWrites_run]
    exact mux_decode uuid true true packets h

/-- Vision padding is transparent exactly for contents below `2 ^ 16` bytes, on the
uplink of a bridged stream and in the frames of a mux. -/
theorem vision_transparent_iff (uuid : Uuid) :
    (∀ (firstPayload : Option FirstPayload) (reads : List LocalRead),
      Transparent uuid (bridgeVlessStream uuid (firstPayload.map (·.1)) (reads.map (·.1)))
          ((firstPayload.map (·.1)).getD [] ++ (reads.map (·.1)).flatten) ↔
        ∀ data ∈ paddedReads .new (reads.map (·.1)), data.length < 65536) ∧
    ∀ packets : List (TargetAddress × Bytes),
      Transparent uuid (muxFrames (.new (some uuid)) packets) (admittedFrames true packets).flatten ↔
        ∀ frame ∈ admittedFrames true packets, frame.length < 65536 :=
  ⟨bridge_transparent_iff uuid,mux_transparent_iff uuid⟩

/-! ## A read of `2 ^ 16` bytes -/

/-- Five zeroes are an empty block. -/
theorem empty_block_unit (uuid : Uuid) (rest : Bytes) :
    visionUnit uuid .padding ([0, 0, 0, 0, 0] ++ rest) = some (.padding, rest, []) := by
  have hcontent : contentLen ([0, 0, 0, 0, 0] ++ rest) = 0 := ofBe16_zero
  have hpadding : paddingLen ([0, 0, 0, 0, 0] ++ rest) = 0 := ofBe16_zero
  have hblock : blockLen ([0, 0, 0, 0, 0] ++ rest) = 5 := by rw [blockLen, hcontent, hpadding]
  have hbytes : blockBytes ([0, 0, 0, 0, 0] ++ rest) = [] := by
    rw [blockBytes, hcontent]
    rfl
  have hlen : ([0, 0, 0, 0, 0] ++ rest).length = 5 + rest.length := by simp; omega
  have hcommand : ([0, 0, 0, 0, 0] ++ rest).getD 0 0 = 0 := rfl
  rw [visionUnit, if_neg (by omega), hcommand, if_neg (by decide), hblock, if_neg (by omega), hbytes]
  rfl

theorem run_empty_block (uuid : Uuid) (rest : Bytes) :
    emitBytes ((visionScanner uuid).run .padding ([0, 0, 0, 0, 0] ++ rest)).2.2 =
      emitBytes ((visionScanner uuid).run .padding rest).2.2 := by
  have hunit : (visionScanner uuid).step .padding ([0, 0, 0, 0, 0] ++ rest) =
      some (.padding, rest, []) := by
    simp only [visionScanner]
    rw [empty_block_unit]
  rw [Scanner.run_unit hunit, List.nil_append]

/-- Zeroes decode to nothing. -/
theorem run_zeroes (uuid : Uuid) (n : Nat) :
    emitBytes ((visionScanner uuid).run .padding (List.replicate n 0)).2.2 = [] := by
  induction n using Nat.strongRecOn with
  | ind n ih =>
    by_cases h5 : n < 5
    · rw [Scanner.run_wait (by simp [visionScanner, visionUnit, h5])]
      rfl
    · obtain ⟨m,rfl⟩ : ∃ m, n = 5+m := ⟨n-5,by omega⟩
      rw [List.replicate_add]
      exact (run_empty_block uuid _).trans (ih m (by omega))

/-- A TLS hello, and a chunk of zeroes. -/
def tlsReads (n : Nat) (h : 0 < n ∧ n ≤ flowCopyBufferSize) : List LocalRead :=
  [⟨[0x16, 0x03, 0x01, 0x00, 0x01, 0x00], by simp [flowCopyBufferSize]⟩,
    ⟨List.replicate n 0, by simpa using h⟩]

theorem commandFor_hello : VisionUplinkState.new.commandFor [0x16, 0x03, 0x01, 0x00, 0x01, 0x00] false =
    (.padding 0, ⟨{ VisionTrafficState.new with packetFilterRemaining := 7, isTls := true }⟩) := by
  decide +kernel

/-- What is no TLS record at all goes out with command 0 once TLS has been seen. -/
theorem commandFor_zero (rest : Bytes) :
    (VisionUplinkState.commandFor
      ⟨{ VisionTrafficState.new with packetFilterRemaining := 7, isTls := true }⟩
        (0 :: rest) false).1.command = 0 := by
  simp [VisionUplinkState.commandFor, VisionTrafficState.filterTls, isTlsHandshake,
    VisionUplinkState.wantsDirect, startsWith, VisionTrafficState.new, VisionUplinkDecision.padding]

theorem tlsReads_writes (uuid : Uuid) (n : Nat) (h : 0 < n ∧ n ≤ flowCopyBufferSize) :
    bridgeVlessStream uuid none ((tlsReads n h).map (·.1)) =
      [.block none 0 (some uuid), .block (some [0x16, 0x03, 0x01, 0x00, 0x01, 0x00]) 0 none,
        .block (some (List.replicate n 0)) 0 none] := by
  obtain ⟨m,rfl⟩ : ∃ m, n = m+1 := ⟨n-1,by omega⟩
  have hzero := commandFor_zero (List.replicate m 0)
  simp only [bridgeVlessStream, tlsReads, List.map_cons, List.map_nil, List.replicate_succ]
  generalize List.replicate m (0:UInt8) = rest at hzero ⊢
  simp only [bridgeUplink, commandFor_hello, hzero]
  rfl

/-- A chunk whose length is a multiple of `2 ^ 16` is padded with the length 0, and
nothing of it is decoded. -/
theorem tlsReads_decode (uuid : Uuid) (n : Nat) (h : 0 < n ∧ n ≤ flowCopyBufferSize)
    (hmod : n % 65536 = 0) :
    decodeWrites uuid (bridgeVlessStream uuid none ((tlsReads n h).map (·.1))) =
      [0x16, 0x03, 0x01, 0x00, 0x01, 0x00] := by
  have hlen : be16 (List.replicate n (0:UInt8)).length = [0, 0] := by
    have hhigh : UInt8.ofNat (n / 256) = 0 := by
      apply UInt8.toNat_inj.mp
      simp
      omega
    have hlow : UInt8.ofNat n = 0 := by
      apply UInt8.toNat_inj.mp
      simp
      omega
    rw [List.length_replicate, be16, hhigh, hlow]
  have hzeroes : xtlsPadding (some (List.replicate n 0)) 0 none true = List.replicate (5+n) 0 := by
    have hlong : ¬ n < 900 := by omega
    simp only [xtlsPadding, Option.getD_some, hlen]
    simp [hlong, List.replicate_add]
    rfl
  have htail := run_zeroes uuid (5+n)
  rw [← hzeroes] at htail
  rw [tlsReads_writes, decodeWrites_run]
  simp only [List.flatMap_cons, List.flatMap_nil, UplinkWrite.bytes]
  rw [run_first_block uuid none (by decide), run_block uuid _ (by decide), List.append_nil, htail]
  rfl

theorem tlsReads_length (n : Nat) (h : 0 < n ∧ n ≤ flowCopyBufferSize) :
    ((tlsReads n h).map (·.1)).flatten.length = 6 + n := by
  simp [tlsReads]
  omega

theorem vision_large_read_lost :
    ¬ ∀ (uuid : Uuid) (firstPayload : Option FirstPayload) (reads : List LocalRead),
      decodeWrites uuid (bridgeVlessStream uuid (firstPayload.map (·.1)) (reads.map (·.1))) =
        (firstPayload.map (·.1)).getD [] ++ (reads.map (·.1)).flatten := by
  intro h
  obtain ⟨n,hn,hbound⟩ : ∃ n, n = 65536 ∧ 0 < n ∧ n ≤ flowCopyBufferSize :=
    ⟨65536,rfl,by omega,by unfold flowCopyBufferSize; omega⟩
  have hread := h (Vector.replicate 16 7) none (tlsReads n hbound)
  have hdecode := tlsReads_decode (Vector.replicate 16 7) n hbound (by omega)
  simp only [Option.map_none, Option.getD_none, List.nil_append] at hread
  have hlen := congrArg List.length (hdecode.symm.trans hread)
  rw [tlsReads_length] at hlen
  simp only [List.length_cons, List.length_nil] at hlen
  omega

end AtlasKernel.Vless
