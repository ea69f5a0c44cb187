import AtlasKernel.Lib.AddressText
import AtlasKernel.Lib.Reassembly
import AtlasKernel.Lib.Steps
import Mathlib.Tactic.IntervalCases

/-! The obfuscated sockets of the Hysteria2 client. Salamander mixes every packet with a key stream
of its own; Gecko also cuts the packets of a handshake into padded frames, which the other side puts
together again. Source: `salamander_socket.rs` and `gecko_socket.rs` of the `hysteria2` package. -/
namespace AtlasKernel.Hysteria2
open AtlasKernel.Lib

/-! ## Salamander -/

/-- Blake2b with 32 bytes is any function. -/
def salamanderXor (blake2b : Bytes → Bytes) (packet key salt : Bytes) : Bytes :=
  let keyStream := blake2b (key ++ salt)
  packet.mapIdx fun index byte => byte ^^^ byteAt keyStream (index % keyStream.length)

/-- Eight bytes that are drawn. -/
structure Salt where
  bytes : Bytes
  length : bytes.length = 8

def salamanderObfuscate (blake2b : Bytes → Bytes) (packet key : Bytes) (salt : Salt) : Bytes :=
  salt.bytes ++ salamanderXor blake2b packet key salt.bytes

def salamanderDeobfuscate (blake2b : Bytes → Bytes) (packet key : Bytes) : Except String Bytes :=
  if packet.length < 8 then .error "Hysteria2 Salamander datagram is too short"
  else .ok (salamanderXor blake2b (packet.drop 8) key (packet.take 8))

theorem salamanderXor_xor (blake2b : Bytes → Bytes) (packet key salt : Bytes) :
    salamanderXor blake2b (salamanderXor blake2b packet key salt) key salt = packet := by
  rw [salamanderXor, salamanderXor]
  apply List.ext_getElem?
  intro i
  rw [List.getElem?_mapIdx, List.getElem?_mapIdx]
  cases packet[i]? with
  | none => rfl
  | some byte => simp [UInt8.xor_assoc]

theorem deobfuscate_obfuscate (blake2b : Bytes → Bytes) (packet key : Bytes) (salt : Salt) :
    salamanderDeobfuscate blake2b (salamanderObfuscate blake2b packet key salt) key = .ok packet := by
  have hlong : ¬ (salamanderObfuscate blake2b packet key salt).length < 8 := by
    rw [salamanderObfuscate, List.length_append, salt.length]
    exact Nat.not_lt.mpr (Nat.le_add_right _ _)
  have htake : (salamanderObfuscate blake2b packet key salt).take 8 = salt.bytes :=
    List.take_left' salt.length
  have hdrop : (salamanderObfuscate blake2b packet key salt).drop 8 =
      salamanderXor blake2b packet key salt.bytes := List.drop_left' salt.length
  rw [salamanderDeobfuscate, if_neg hlong, htake, hdrop, salamanderXor_xor]

/-! ## Frames -/

/-- `encode_frame`, with the padding that is drawn. -/
def encodeFrame (msgId : UInt8) (chunkIndex total : Nat) (padding payload : Bytes) : Bytes :=
  [0x80, msgId, (UInt8.ofNat chunkIndex <<< 4) ||| (UInt8.ofNat total &&& 0x0f)] ++
    be16 padding.length ++ (padding ++ payload)

/-- The padding brings the datagram to 512 bytes at least and to 1200 at most. -/
def PaddingInRange (payload padding : Bytes) : Prop :=
  let base := 8 + 5 + payload.length
  if 1200 ≤ base then padding = []
  else max 512 base - base ≤ padding.length ∧ padding.length ≤ 1200 - base

structure Frame where
  msgId : UInt8
  chunkIndex : Nat
  total : Nat
  payload : Bytes
deriving DecidableEq

def decodeFrame (input : Bytes) : Except String Frame :=
  if input.length < 5 ∨ byteAt input 0 &&& 0x80 = 0 then .error "invalid Gecko frame"
  else
    let chunkIndex := (byteAt input 2 >>> 4).toNat
    let total := (byteAt input 2 &&& 0x0f).toNat
    if ¬ (2 ≤ total ∧ total ≤ 8) ∨ total ≤ chunkIndex then .error "invalid Gecko fragment metadata"
    else
      let padLen := be16At input 3
      if input.length < 5 + padLen then .error "Gecko frame is truncated"
      else .ok ⟨byteAt input 1,chunkIndex,total,input.drop (5 + padLen)⟩

theorem PaddingInRange.length_le {payload padding : Bytes} (h : PaddingInRange payload padding) :
    padding.length ≤ 1200 := by
  rw [PaddingInRange] at h
  split_ifs at h with hbase
  · rw [h]
    exact Nat.zero_le _
  · omega

theorem decodeFrame_encodeFrame {msgId : UInt8} {chunkIndex total : Nat} {padding payload : Bytes}
    (hindex : chunkIndex < total) (htotal : 2 ≤ total ∧ total ≤ 8)
    (hpadding : PaddingInRange payload padding) :
    decodeFrame (encodeFrame msgId chunkIndex total padding payload) =
      .ok ⟨msgId,chunkIndex,total,payload⟩ := by
  have hplen := hpadding.length_le
  generalize hframe : encodeFrame msgId chunkIndex total padding payload = frame
  have hlen : frame.length = 5 + (padding.length + payload.length) := by
    rw [← hframe, encodeFrame, List.length_append, List.length_append, List.length_append, be16_length]
    rfl
  have hpad : be16At frame 3 = padding.length := by
    rw [← hframe]
    exact ofBe16_of_lt (by omega)
  have hmark : byteAt frame 2 = (UInt8.ofNat chunkIndex <<< 4) ||| (UInt8.ofNat total &&& 0x0f) := by
    rw [← hframe]
    rfl
  have hbits : (byteAt frame 2 >>> 4).toNat = chunkIndex ∧ (byteAt frame 2 &&& 0x0f).toNat = total := by
    rw [hmark]
    obtain ⟨hlow,hhigh⟩ := htotal
    interval_cases total <;> interval_cases chunkIndex <;> decide
  have hfirst : byteAt frame 0 = 0x80 := by rw [← hframe]; rfl
  have hid : byteAt frame 1 = msgId := by rw [← hframe]; rfl
  have hbody : frame.drop 5 = padding ++ payload := by rw [← hframe]; rfl
  have hdrop : frame.drop (5 + padding.length) = payload := by
    rw [← List.drop_drop, hbody, List.drop_left]
  have hvalid : ¬ (¬ (2 ≤ total ∧ total ≤ 8) ∨ total ≤ chunkIndex) := by omega
  have hframe' : ¬ (frame.length < 5 ∨ byteAt frame 0 &&& 0x80 = 0) := by
    rw [hfirst, hlen]
    exact not_or.mpr ⟨Nat.not_lt.mpr (Nat.le_add_right _ _),by decide⟩
  have henough : ¬ frame.length < 5 + padding.length := by omega
  rw [decodeFrame, if_neg hframe']
  simp only [hbits.1, hbits.2, if_neg hvalid, hpad, if_neg henough, hid, hdrop]

/-! ## Reassembly -/

/-- Eight seconds, in nanoseconds. -/
def reassemblyTtl : Nat := 8000000000

structure ReassemblyEntry where
  chunks : List (Option Bytes)
  received : Nat
  deadline : Nat

/-- A chunk that has come before is not taken again. -/
def ReassemblyEntry.put (entry : ReassemblyEntry) (frame : Frame) : ReassemblyEntry :=
  match entry.chunks[frame.chunkIndex]? with
  | some none => { entry with
      chunks := entry.chunks.set frame.chunkIndex (some frame.payload)
      received := entry.received + 1 }
  | _ => entry

/-- What becomes of the entry of a frame, and the packet when it is complete. -/
def accept (now : Nat) (entry : Option ReassemblyEntry) (frame : Frame) :
    Option ReassemblyEntry × Option Bytes :=
  let entry := entry.getD ⟨List.replicate frame.total none,0,now + reassemblyTtl⟩
  if entry.chunks.length ≠ frame.total ∨ frame.total ≤ frame.chunkIndex then (none, none)
  else
    let entry := entry.put frame
    if entry.received ≠ entry.chunks.length then (some entry, none)
    else (none, some (entry.chunks.filterMap id).flatten)

/-- Entries go by the text of the address and the number of the message. -/
abbrev GeckoKey := List Char × UInt8

structure GeckoReadState where
  reassembly : GeckoKey → Option ReassemblyEntry
  now : Nat

namespace GeckoReadState

def new : GeckoReadState := ⟨fun _ => none,0⟩

/-- The entry of the key while its deadline has not passed. -/
def live (s : GeckoReadState) (key : GeckoKey) : Option ReassemblyEntry :=
  (s.reassembly key).filter (s.now < ·.deadline)

/-- `accept_fragment`: entries whose deadline has passed are dropped first. -/
def acceptFragment (s : GeckoReadState) (key : GeckoKey) (frame : Frame) :
    GeckoReadState × Option Bytes :=
  let r := accept s.now (s.live key) frame
  ({ s with reassembly := Function.update s.live key r.1 }, r.2)

end GeckoReadState

inductive GeckoEvent where
  | datagram (addr : SocketAddr) (bytes : Bytes)
  | tick (n : Nat)
deriving DecidableEq

/-- A packet, with the number of its message when it came in frames; or an error of the socket. -/
inductive GeckoOutput where
  | packet (addr : SocketAddr) (msgId : Option UInt8) (packet : Bytes)
  | failed
deriving DecidableEq

/-- `fill_recv` -/
def fillRecv (bufLen : Nat) (packet : Bytes) : Bytes := packet.take (min bufLen 2048)

variable (blake2b : Bytes → Bytes) (password : Bytes) (bufLen : Nat)

/-- What a datagram says to `poll_recv`, which reads no more of it than its buffer holds. -/
inductive Heard where
  | failed
  | whole (packet : Bytes)
  | frame (frame : Frame)
deriving DecidableEq

def hear (bytes : Bytes) : Heard :=
  match salamanderDeobfuscate blake2b (bytes.take (bufLen + 128)) password with
  | .error _ => .failed
  | .ok decoded =>
    if decoded.head?.any (· &&& 0x80 ≠ 0) then
      match decodeFrame decoded with
      | .error _ => .failed
      | .ok frame => .frame frame
    else .whole decoded

/-- One turn of `poll_recv`, or time that passes. -/
def pollRecv (s : GeckoReadState) : GeckoEvent → GeckoReadState × List GeckoOutput
  | .tick n => ({ s with now := s.now + n }, [])
  | .datagram addr bytes =>
    match hear blake2b password bufLen bytes with
    | .failed => (s, [.failed])
    | .whole decoded => (s, [.packet addr none (fillRecv bufLen decoded)])
    | .frame frame =>
      let r := s.acceptFragment (addr.text, frame.msgId) frame
      (r.1, (r.2.map fun packet => .packet addr (some frame.msgId) (fillRecv bufLen packet)).toList)

/-! ## Sending -/

structure FrameDraw where
  padding : Bytes
  salt : Salt

/-- `send_fragmented`, with the number of fragments and of the message. -/
def sendFragmented (fragments : Nat) (msgId : UInt8) (draws : Nat → FrameDraw) (packet : Bytes) :
    List Bytes :=
  let chunkSize := divCeil packet.length fragments
  (chunksOf chunkSize packet).mapIdx fun index chunk => salamanderObfuscate blake2b
    (encodeFrame msgId index fragments (draws index).padding chunk) password (draws index).salt

/-- `try_send`: only the packets of a handshake are cut. -/
def trySend (fragments : Nat) (msgId : UInt8) (draws : Nat → FrameDraw) (packet : Bytes) :
    List Bytes :=
  if packet.head?.any (· &&& 0x80 ≠ 0) then
    sendFragmented blake2b password fragments msgId draws packet
  else [salamanderObfuscate blake2b packet password (draws 0).salt]

end AtlasKernel.Hysteria2
