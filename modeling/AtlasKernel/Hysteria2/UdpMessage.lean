import AtlasKernel.Lib.QuicVarint
import AtlasKernel.Lib.Text

/-! The datagrams of the Hysteria2 client: a session, a packet, a fragment of it, an address and
the payload. Source: `udp_message.rs` of the `hysteria2` package. -/
namespace AtlasKernel.Hysteria2
open AtlasKernel.Lib

structure UdpMessage where
  sessionId : UInt32
  packetId : UInt16
  fragmentId : UInt8
  fragmentCount : UInt8
  address : String
  payload : Bytes
deriving DecidableEq

namespace UdpMessage

def addressBytes (m : UdpMessage) : Bytes := utf8 m.address.toList

def headerSize (m : UdpMessage) : Nat := 8 + varintLen m.addressBytes.length + m.addressBytes.length

def encodedSize (m : UdpMessage) : Nat := m.headerSize + m.payload.length

/-- The header in front of the address. -/
def header (m : UdpMessage) : Bytes :=
  be32 m.sessionId.toNat ++ be16 m.packetId.toNat ++ [m.fragmentId, m.fragmentCount]

def encode (m : UdpMessage) : Bytes :=
  m.header ++ (putVarint m.addressBytes.length ++ (m.addressBytes ++ m.payload))

def decode (input : Bytes) : Except String UdpMessage :=
  if input.length < 8 then .error "Hysteria2 UDP message is too short"
  else
    let fragmentId := byteAt input 6
    let fragmentCount := byteAt input 7
    if fragmentCount = 0 ∨ fragmentCount ≤ fragmentId then
      .error "Hysteria2 UDP fragment metadata is invalid"
    else
      match readVarint (input.drop 8) with
      | none => .error "QUIC varint is truncated"
      | some (addressLen, rest) =>
        if rest.length < addressLen then .error "Hysteria2 UDP address is truncated"
        else
          match fromUtf8 (rest.take addressLen) with
          | .error e => .error e
          | .ok address => .ok {
              sessionId := UInt32.ofNat (be32At input 0)
              packetId := UInt16.ofNat (be16At input 4)
              fragmentId := fragmentId
              fragmentCount := fragmentCount
              address := address
              payload := rest.drop addressLen }

/-! ## What is decoded -/

/-- The datagrams that say the message: the length of the address has a form of each width. -/
def Says (input : Bytes) (m : UdpMessage) : Prop :=
  ∃ tag < 4, m.addressBytes.length < 2 ^ varintBits tag ∧
    input = m.header ++ (varintForm tag m.addressBytes.length ++ (m.addressBytes ++ m.payload))

theorem decode_said {input : Bytes} {m : UdpMessage} (hvalid : m.fragmentId < m.fragmentCount)
    (h : Says input m) : decode input = .ok m := by
  obtain ⟨tag,htag,hlen,rfl⟩ := h
  generalize hbody : varintForm tag m.addressBytes.length ++ (m.addressBytes ++ m.payload) = body
  have hread : readVarint body = some (m.addressBytes.length, m.addressBytes ++ m.payload) :=
    readVarint_eq_some_iff.mpr ⟨tag,htag,hlen,hbody.symm⟩
  have hsession : UInt32.ofNat (be32At (m.header ++ body) 0) = m.sessionId := by
    have hat : be32At (m.header ++ body) 0 = m.sessionId.toNat % 4294967296 := by
      rw [header, List.append_assoc, List.append_assoc]
      exact be32At_be32 _ _
    rw [hat, Nat.mod_eq_of_lt m.sessionId.toNat_lt, UInt32.ofNat_toNat]
  have hpacket : UInt16.ofNat (be16At (m.header ++ body) 4) = m.packetId := by
    have hat : be16At (m.header ++ body) 4 = m.packetId.toNat % 65536 := ofBe16_be16 _
    rw [hat, Nat.mod_eq_of_lt m.packetId.toNat_lt, UInt16.ofNat_toNat]
  have hfragment : ¬ (m.fragmentCount = 0 ∨ m.fragmentCount ≤ m.fragmentId) := by
    rintro (hzero | hle)
    · rw [hzero] at hvalid
      exact absurd hvalid UInt8.not_lt_zero
    · exact absurd hvalid (UInt8.not_lt.mpr hle)
  have hlong : ¬ (m.header ++ body).length < 8 := by
    rw [List.length_append]
    exact Nat.not_lt.mpr (Nat.le_add_right 8 _)
  have henough : ¬ (m.addressBytes ++ m.payload).length < m.addressBytes.length := by
    rw [List.length_append]
    exact Nat.not_lt.mpr (Nat.le_add_right _ _)
  have hdrop : (m.header ++ body).drop 8 = body := rfl
  have hid : byteAt (m.header ++ body) 6 = m.fragmentId := rfl
  have hcount : byteAt (m.header ++ body) 7 = m.fragmentCount := rfl
  rw [decode, if_neg hlong]
  simp only [hid, hcount, if_neg hfragment, hdrop, hread, if_neg henough, List.take_left,
    List.drop_left, hsession, hpacket]
  rw [addressBytes, fromUtf8_utf8]

/-- Eight bytes are the header of what is read from them. -/
theorem header_take {input : Bytes} (h : ¬ input.length < 8) (address : String) (payload : Bytes) :
    header ⟨UInt32.ofNat (be32At input 0),UInt16.ofNat (be16At input 4),byteAt input 6,
      byteAt input 7,address,payload⟩ = input.take 8 := by
  match input with
  | a :: b :: c :: d :: e :: f :: g :: i :: tail =>
    have hsession : (UInt32.ofNat (be32At (a :: b :: c :: d :: e :: f :: g :: i :: tail) 0)).toNat =
        be32At (a :: b :: c :: d :: e :: f :: g :: i :: tail) 0 := by
      rw [UInt32.toNat_ofNat', Nat.mod_eq_of_lt (be32At_lt _ _)]
    have hpacket : (UInt16.ofNat (ofBe16 e f)).toNat = ofBe16 e f := by
      rw [UInt16.toNat_ofNat', Nat.mod_eq_of_lt (ofBe16_lt e f)]
    have hbytes : be16 (UInt16.ofNat (ofBe16 e f)).toNat = [e, f] := by rw [hpacket, be16_ofBe16]
    rw [header, hsession, be32_be32At]
    exact congrArg (fun l => [a, b, c, d] ++ l ++ [g, i]) hbytes
  | [] | [_] | [_, _] | [_, _, _] | [_, _, _, _] | [_, _, _, _, _] | [_, _, _, _, _, _]
  | [_, _, _, _, _, _, _] => simp at h

theorem says_of_decode {input : Bytes} {m : UdpMessage} (h : decode input = .ok m) :
    m.fragmentId < m.fragmentCount ∧ Says input m := by
  rw [decode] at h
  split at h
  · cases h
  next hlong =>
    dsimp only at h
    split at h
    · cases h
    next hfragment =>
      rw [not_or, UInt8.not_le] at hfragment
      split at h
      · cases h
      next addressLen rest hread =>
        split at h
        · cases h
        next henough =>
          split at h
          · cases h
          next address hutf8 =>
            cases h
            obtain ⟨tag,htag,hlen,hbody⟩ := readVarint_eq_some_iff.mp hread
            have haddress : utf8 address.toList = rest.take addressLen := utf8_of_fromUtf8 hutf8
            have hlength : (utf8 address.toList).length = addressLen := by
              rw [haddress, List.length_take_of_le (Nat.not_lt.mp henough)]
            refine ⟨hfragment.2,tag,htag,?_,?_⟩
            · rw [addressBytes, hlength]
              exact hlen
            · have hpayload : rest.take addressLen ++ rest.drop addressLen = rest :=
                List.take_append_drop _ _
              rw [header_take hlong, addressBytes, hlength, haddress, hpayload, ← hbody,
                List.take_append_drop]

theorem decode_iff {input : Bytes} {m : UdpMessage} :
    decode input = .ok m ↔ m.fragmentId < m.fragmentCount ∧ Says input m :=
  ⟨says_of_decode,fun h => decode_said h.1 h.2⟩

/-! ## What is encoded -/

@[simp] theorem header_length (m : UdpMessage) : m.header.length = 8 := rfl

theorem encode_length (m : UdpMessage) : m.encode.length = m.encodedSize := by
  rw [encode, encodedSize, headerSize, List.length_append, List.length_append, List.length_append,
    header_length, putVarint_length]
  omega

/-- The address is a text in memory. -/
def HasText (m : UdpMessage) : Prop := m.addressBytes.length < 2 ^ 62

theorem says_encode {m : UdpMessage} (h : m.HasText) : Says m.encode m := by
  obtain ⟨tag,htag,hlen,hform,_⟩ := putVarint_form h
  exact ⟨tag,htag,hlen,by rw [encode, hform]⟩

theorem Says.length_le {input : Bytes} {m : UdpMessage} (h : m.HasText) (hsaid : Says input m) :
    m.encode.length ≤ input.length := by
  obtain ⟨tag,htag,hlen,rfl⟩ := hsaid
  obtain ⟨least,_,_,hform,hleast⟩ := putVarint_form h
  have hpow : 2 ^ least ≤ 2 ^ tag := Nat.pow_le_pow_right (by decide) (hleast tag hlen)
  simp only [encode, hform, List.length_append, varintForm_length]
  omega

/-- A datagram is taken exactly if it says a message with a fragment of its count; what is sent is
the shortest of them, and it is taken exactly if its fragment is one of its count. -/
theorem udp_message_codec (m : UdpMessage) (h : m.HasText) :
    (∀ input, decode input = .ok m ↔ m.fragmentId < m.fragmentCount ∧ Says input m) ∧
      (decode m.encode = .ok m ↔ m.fragmentId < m.fragmentCount) ∧
      ∀ input, decode input = .ok m → m.encode.length ≤ input.length :=
  ⟨fun _ => decode_iff,decode_iff.trans (and_iff_left (says_encode h)),
    fun _ hdecode => (says_of_decode hdecode).2.length_le h⟩

/-- Four bytes for a short address. -/
def short : UdpMessage := ⟨7,0,0,1,"a:1",[1, 2, 3, 4]⟩

theorem short_hasText : short.HasText := by
  unfold HasText
  decide +kernel

theorem udp_message_codec_short : short.HasText ∧ decode short.encode = .ok short :=
  ⟨short_hasText,(udp_message_codec short short_hasText).2.1.mpr (by decide)⟩

end UdpMessage

end AtlasKernel.Hysteria2
