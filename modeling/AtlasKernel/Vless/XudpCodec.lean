import AtlasKernel.Lib.WireAddress
import AtlasKernel.Vless.Xudp

/-! The receiving side of the XUDP frames: packets are taken from a buffer as soon as they
are whole. Source: `adapter/vless.rs`. -/
namespace AtlasKernel.Vless
open AtlasKernel.Lib

structure XudpPacket where
  target : Option TargetAddress
  payload : Bytes
deriving DecidableEq, Repr

/-- The host and how many bytes the address takes. -/
def decodeAddress (input : Bytes) : Except String (String × Nat) :=
  match input.head? with
  | none => .error "VLESS address is empty"
  | some atyp =>
    if atyp = 1 then
      if h : input.length < 5 then .error "VLESS IPv4 address is truncated"
      else
        let ip : Ipv4Addr := ⟨slice input 1 5, by rw [slice_length]; omega⟩
        .ok (String.ofList ip.text, 5)
    else if atyp = 2 then
      if input.length < 2 then .error "VLESS domain address is truncated"
      else
        let len := (byteAt input 1).toNat
        if input.length < 2 + len then .error "VLESS domain address is truncated"
        else (fromUtf8 (slice input 2 (2 + len))).map fun host => (host, 2 + len)
    else if atyp = 3 then
      if h : input.length < 17 then .error "VLESS IPv6 address is truncated"
      else
        let ip : Ipv6Addr := ⟨slice input 1 17, by rw [slice_length]; omega⟩
        .ok (String.ofList ip.text, 17)
    else .error s!"invalid VLESS address type {atyp}"

def decodePortThenAddress (input : Bytes) : Except String (TargetAddress × Nat) :=
  if input.length < 3 then .error "XUDP target address is truncated"
  else (decodeAddress (input.drop 2)).map fun r =>
    (⟨r.1, UInt16.ofNat (be16At input 0)⟩, r.2 + 2)

/-- The network byte tells whether the metadata names a UDP target. -/
def decodeTarget (metadata : Bytes) : Except String (Option TargetAddress) :=
  if 4 < metadata.length ∧ byteAt metadata 4 = 2 then
    (decodePortThenAddress (metadata.drop 5)).map fun r => some r.1
  else .ok none

/-- What a turn of the loop of `take_xudp_packet` finds at the front of the buffer. -/
inductive XudpTurn where
  | incomplete
  | invalid (err : String)
  | frame (len : Nat) (packet : Option XudpPacket)
deriving DecidableEq, Repr

def xudpTurn (buffer : Bytes) : XudpTurn :=
  if buffer.length < 2 then .incomplete
  else
    let metaLen := be16At buffer 0
    if metaLen < 4 then .invalid s!"invalid XUDP metadata length: {metaLen}"
    else if buffer.length < 2 + metaLen + 2 then .incomplete
    else
      let metadata := slice buffer 2 (2 + metaLen)
      let status := byteAt metadata 2
      let option := byteAt metadata 3
      match decodeTarget metadata with
      | .error err => .invalid err
      | .ok target =>
        let payloadLen := be16At buffer (2 + metaLen)
        let frameLen := 2 + metaLen + 2 + payloadLen
        if buffer.length < frameLen then .incomplete
        else
          let payload := slice buffer (2 + metaLen + 2) frameLen
          -- a keep-alive or closing frame carries nothing for the caller
          if status = 4 ∨ option &&& 1 = 0 ∨ payload = [] then .frame frameLen none
          else .frame frameLen (some ⟨target, payload⟩)

theorem xudpTurn_frame {buffer : Bytes} {len : Nat} {packet : Option XudpPacket}
    (h : xudpTurn buffer = .frame len packet) : 0 < len ∧ len ≤ buffer.length := by
  unfold xudpTurn at h
  split at h
  · cases h
  · dsimp only at h
    split at h
    · cases h
    · split at h
      · cases h
      · split at h
        · cases h
        · split at h
          · cases h
          · split at h <;> cases h <;> omega

/-- The result and what is left of the buffer. -/
def takeXudpPacket (buffer : Bytes) : Except String (Option XudpPacket) × Bytes :=
  match _h : xudpTurn buffer with
  | .incomplete => (.ok none, buffer)
  | .invalid err => (.error err, buffer)
  | .frame len none => takeXudpPacket (buffer.drop len)
  | .frame len (some packet) => (.ok (some packet), buffer.drop len)
termination_by buffer.length
decreasing_by
  have hlen := xudpTurn_frame _h
  rw [List.length_drop]
  omega

theorem takeXudpPacket_incomplete {buffer : Bytes} (h : xudpTurn buffer = .incomplete) :
    takeXudpPacket buffer = (.ok none, buffer) := by
  rw [takeXudpPacket]; split <;> simp_all

theorem takeXudpPacket_packet {buffer : Bytes} {len : Nat} {packet : XudpPacket}
    (h : xudpTurn buffer = .frame len (some packet)) :
    takeXudpPacket buffer = (.ok (some packet), buffer.drop len) := by
  rw [takeXudpPacket]; split <;> simp_all

theorem takeXudpPacket_skip {buffer : Bytes} {len : Nat} (h : xudpTurn buffer = .frame len none) :
    takeXudpPacket buffer = takeXudpPacket (buffer.drop len) := by
  conv_lhs => rw [takeXudpPacket]
  split <;> simp_all

/-! ## Whole frames -/

/-- Where the frame at the front of a buffer ends, by its two length fields. -/
def frameEnd (buffer : Bytes) : Nat := 2 + be16At buffer 0 + 2 + be16At buffer (2 + be16At buffer 0)

/-- The bytes are one frame, with nothing missing and nothing behind it. -/
def WholeFrame (frame : Bytes) : Prop := 4 ≤ frame.length ∧ frame.length = frameEnd frame

theorem frameEnd_take {buffer : Bytes} {n : Nat} (h : 2 + be16At buffer 0 + 2 ≤ n) :
    frameEnd (buffer.take n) = frameEnd buffer := by
  have hmeta : be16At (buffer.take n) 0 = be16At buffer 0 := be16At_take (by omega)
  rw [frameEnd, hmeta, be16At_take (by omega)]
  rfl

theorem xudpTurn_frame_len {buffer : Bytes} {len : Nat} {packet : Option XudpPacket}
    (h : xudpTurn buffer = .frame len packet) : len = frameEnd buffer ∧ 4 ≤ be16At buffer 0 := by
  unfold xudpTurn at h
  split at h
  · cases h
  · dsimp only at h
    split at h
    · cases h
    · split at h
      · cases h
      · split at h
        · cases h
        · split at h
          · cases h
          · split at h <;> cases h <;> exact ⟨rfl,by omega⟩

/-- What a turn takes out is a whole frame. -/
theorem xudpTurn_takes_frame {buffer : Bytes} {len : Nat} {packet : Option XudpPacket}
    (h : xudpTurn buffer = .frame len packet) : WholeFrame (buffer.take len) := by
  obtain ⟨hpos,hle⟩ := xudpTurn_frame h
  obtain ⟨rfl,hmeta⟩ := xudpTurn_frame_len h
  have hbound : 2 + be16At buffer 0 + 2 ≤ frameEnd buffer := Nat.le_add_right ..
  refine ⟨?_,?_⟩
  · rw [List.length_take_of_le hle]
    omega
  · rw [List.length_take_of_le hle, frameEnd_take hbound]

/-- A buffer that waits for more has no whole frame at its front. -/
theorem xudpTurn_incomplete {buffer : Bytes} (h : xudpTurn buffer = .incomplete) (n : Nat) :
    ¬ WholeFrame (buffer.take n) := by
  intro hwhole
  obtain ⟨hlong,hlen⟩ := hwhole
  have hn : 4 ≤ n := by
    rw [List.length_take] at hlong
    omega
  have hmeta : be16At (buffer.take n) 0 = be16At buffer 0 := be16At_take (by omega)
  have hend : frameEnd (buffer.take n) = frameEnd buffer := by
    apply frameEnd_take
    rw [frameEnd, hmeta, List.length_take] at hlen
    omega
  have hle : frameEnd buffer ≤ buffer.length := by
    rw [← hend, ← hlen, List.length_take]
    exact Nat.min_le_right ..
  have hlt : buffer.length < frameEnd buffer := by
    unfold xudpTurn at h
    split at h
    · rw [frameEnd]
      omega
    · dsimp only at h
      split at h
      · cases h
      · split at h
        · rw [frameEnd]
          omega
        · split at h
          · cases h
          · split at h
            · rw [frameEnd]
              assumption
            · split at h <;> cases h
  omega

/-- When nothing more is to be had, whole frames have gone and no frame is left in front. -/
theorem takeXudpPacket_none {buffer rest : Bytes} (h : takeXudpPacket buffer = (.ok none, rest)) :
    ∃ frames : List Bytes, (∀ frame ∈ frames, WholeFrame frame) ∧
      buffer = frames.flatten ++ rest ∧ ∀ n, ¬ WholeFrame (rest.take n) := by
  induction buffer using takeXudpPacket.induct with
  | case1 buffer hturn =>
    rw [takeXudpPacket_incomplete hturn] at h
    cases h
    exact ⟨[],fun frame hframe => absurd hframe List.not_mem_nil,rfl,xudpTurn_incomplete hturn⟩
  | case2 buffer err hturn =>
    rw [takeXudpPacket] at h
    split at h <;> simp_all
  | case3 buffer len hturn ih =>
    rw [takeXudpPacket_skip hturn] at h
    obtain ⟨frames,hwhole,hsplit,hrest⟩ := ih h
    refine ⟨buffer.take len :: frames,?_,?_,hrest⟩
    · intro frame hframe
      cases hframe with
      | head => exact xudpTurn_takes_frame hturn
      | tail _ hmem => exact hwhole frame hmem
    · rw [List.flatten_cons, List.append_assoc, ← hsplit, List.take_append_drop]
  | case4 buffer len packet hturn =>
    rw [takeXudpPacket_packet hturn] at h
    cases h

/-! ## An encoded address is decoded -/

theorem ipv6Type_ne : (3 : UInt8) ≠ 1 := by decide
theorem domainType_ne : (2 : UInt8) ≠ 1 := by decide

/-- The address types of VLESS. -/
def vlessCodes : AddressCodes := ⟨1, 3, 2, ipv6Type_ne, domainType_ne, by decide⟩

theorem encodeAddress_bytes {host : String} {address : Bytes}
    (h : encodeAddress (utf8 host.toList) = .ok address) :
    address = (Host.ofText host).bytes vlessCodes ∧ (Host.ofText host).Fits := by
  unfold encodeAddress at h
  cases h₄ : parseIpv4 (utf8 host.toList) with
  | some octets =>
    rw [h₄] at h
    cases h
    rw [Host.ofText_ipv4 h₄]
    exact ⟨rfl,trivial⟩
  | none =>
    rw [h₄] at h
    cases h₆ : parseIpv6 (utf8 host.toList) with
    | some octets =>
      rw [h₆] at h
      cases h
      rw [Host.ofText_ipv6 h₄ h₆]
      exact ⟨rfl,trivial⟩
    | none =>
      rw [h₆] at h
      simp only at h
      split at h
      · cases h
      · next hshort =>
        cases h
        rw [Host.ofText_domain h₄ h₆]
        exact ⟨rfl,Nat.le_of_not_lt hshort⟩

theorem HostFits.ofText_fits {host : String} (h : HostFits (utf8 host.toList)) :
    (Host.ofText host).Fits := by
  obtain ⟨address,haddress⟩ := (encodeAddress_ok_iff _).mpr h
  exact (encodeAddress_bytes haddress).2

theorem decodeAddress_ipv4 (ip : Ipv4Addr) (rest : Bytes) :
    decodeAddress (1 :: ip.octets ++ rest) = .ok (String.ofList ip.text, 5) := by
  obtain ⟨octets,h⟩ := ip
  have hslice : slice (1 :: octets ++ rest) 1 5 = octets := by
    have hmiddle := slice_middle [1] octets rest
    rw [h] at hmiddle
    exact hmiddle
  have hlong : ¬ (1 :: octets ++ rest).length < 5 := by simp [h]
  have hhead : (1 :: octets ++ rest).head? = some 1 := rfl
  unfold decodeAddress
  simp only [hhead, if_true, dif_neg hlong, hslice]

theorem decodeAddress_ipv6 (ip : Ipv6Addr) (rest : Bytes) :
    decodeAddress (3 :: ip.octets ++ rest) = .ok (String.ofList ip.text, 17) := by
  obtain ⟨octets,h⟩ := ip
  have hslice : slice (3 :: octets ++ rest) 1 17 = octets := by
    have hmiddle := slice_middle [3] octets rest
    rw [h] at hmiddle
    exact hmiddle
  have hlong : ¬ (3 :: octets ++ rest).length < 17 := by simp [h]
  have hhead : (3 :: octets ++ rest).head? = some 3 := rfl
  unfold decodeAddress
  simp only [hhead, if_neg (by decide : ¬ (3 : UInt8) = 1), if_neg (by decide : ¬ (3 : UInt8) = 2),
    if_true, dif_neg hlong, hslice]

theorem decodeAddress_domain {host : String} (h : (utf8 host.toList).length ≤ 255)
    (rest : Bytes) :
    decodeAddress (2 :: UInt8.ofNat (utf8 host.toList).length :: utf8 host.toList ++ rest) =
      .ok (host, 2 + (utf8 host.toList).length) := by
  have hdecode := fromUtf8_utf8 host
  generalize utf8 host.toList = name at h hdecode ⊢
  have hlen : (byteAt (2 :: UInt8.ofNat name.length :: name ++ rest) 1).toNat = name.length := by
    simp [byteAt, Nat.mod_eq_of_lt (Nat.lt_succ_of_le h)]
  have hslice : slice (2 :: UInt8.ofNat name.length :: name ++ rest) 2 (2 + name.length) = name :=
    slice_middle [2, UInt8.ofNat name.length] name rest
  have hhead : (2 :: UInt8.ofNat name.length :: name ++ rest).head? = some 2 := rfl
  have hlong : ¬ (2 :: UInt8.ofNat name.length :: name ++ rest).length < 2 := by simp
  have hlong' : ¬ (2 :: UInt8.ofNat name.length :: name ++ rest).length < 2 + name.length := by
    simp
    omega
  unfold decodeAddress
  simp only [hhead, if_neg (by decide : ¬ (2 : UInt8) = 1), if_true, if_neg hlong, hlen,
    if_neg hlong', hslice, hdecode]
  rfl

/-- Every host that fits is decoded from its bytes. -/
theorem decodeAddress_bytes {host : Host} (h : host.Fits) (rest : Bytes) :
    decodeAddress (host.bytes vlessCodes ++ rest) =
      .ok (host.text, (host.bytes vlessCodes).length) := by
  cases host with
  | ip address =>
    cases address with
    | v4 ip =>
      have hlen : ((Host.ip (.v4 ip)).bytes vlessCodes).length = 5 := by simp [Host.bytes, ip.size]
      rw [hlen]
      exact decodeAddress_ipv4 ip rest
    | v6 ip =>
      have hlen : ((Host.ip (.v6 ip)).bytes vlessCodes).length = 17 := by
        simp [Host.bytes, ip.size]
      rw [hlen]
      exact decodeAddress_ipv6 ip rest
  | domain name =>
    have hlen : ((Host.domain name).bytes vlessCodes).length = 2 + (utf8 name.toList).length := by
      simp [Host.bytes, Nat.add_comm]
      omega
    rw [hlen]
    exact decodeAddress_domain h rest

/-- The host as its receiver spells it: an IP address in canonical text. -/
def canonicalHost (host : String) : String := (Host.ofText host).text

/-- An address is decoded as the one that was encoded, its host in canonical spelling. -/
theorem decodeAddress_encodeAddress {host : String} {address : Bytes}
    (h : encodeAddress (utf8 host.toList) = .ok address) (rest : Bytes) :
    decodeAddress (address ++ rest) = .ok (canonicalHost host, address.length) := by
  obtain ⟨rfl,hfits⟩ := encodeAddress_bytes h
  exact decodeAddress_bytes hfits rest

/-- A target as its receiver spells it. -/
def canonicalTarget (target : TargetAddress) : TargetAddress :=
  { target with host := canonicalHost target.host }

theorem decodePortThenAddress_endpoint {endpoint : Endpoint} (h : endpoint.host.Fits)
    (more : Bytes) :
    decodePortThenAddress (be16 endpoint.port.toNat ++ (endpoint.host.bytes vlessCodes ++ more)) =
      .ok (⟨endpoint.host.text, endpoint.port⟩, (endpoint.host.bytes vlessCodes).length + 2) := by
  have hport : be16At (be16 endpoint.port.toNat ++ (endpoint.host.bytes vlessCodes ++ more)) 0 =
      endpoint.port.toNat := by
    rw [be16At_be16, Nat.mod_eq_of_lt endpoint.port.toNat_lt]
  have hdrop : (be16 endpoint.port.toNat ++ (endpoint.host.bytes vlessCodes ++ more)).drop 2 =
      endpoint.host.bytes vlessCodes ++ more := rfl
  have hlong : ¬ (be16 endpoint.port.toNat ++ (endpoint.host.bytes vlessCodes ++ more)).length < 3 := by
    have hpos := endpoint.host.bytes_pos vlessCodes
    simp
    omega
  rw [decodePortThenAddress, if_neg hlong, hdrop, hport, decodeAddress_bytes h]
  simp [Except.map, UInt16.ofNat_toNat]

theorem decodePortThenAddress_encode {target : TargetAddress} {bytes : Bytes}
    (h : encodePortThenAddress target = .ok bytes) (rest : Bytes) :
    decodePortThenAddress (bytes ++ rest) = .ok (canonicalTarget target, bytes.length) := by
  unfold encodePortThenAddress at h
  cases haddress : encodeAddress target.hostBytes with
  | error err =>
    rw [haddress] at h
    cases h
  | ok address =>
    rw [haddress] at h
    cases h
    obtain ⟨rfl,hfits⟩ := encodeAddress_bytes haddress
    have hdecode := @decodePortThenAddress_endpoint ⟨Host.ofText target.host, target.port⟩ hfits rest
    simpa [canonicalTarget, canonicalHost, Nat.add_comm] using hdecode

/-! ## An encoded packet is taken out again -/

def xudpMetadata (address : Bytes) (firstPacket : Bool) : Bytes :=
  [0, 0] ++ [if firstPacket then 1 else 2, 1, 2] ++ address ++
    if firstPacket then List.replicate 8 0 else []

def xudpFrame (metadata payload : Bytes) : Bytes :=
  be16 metadata.length ++ (metadata ++ (be16 payload.length ++ payload))

theorem xudpFrame_length (metadata payload : Bytes) :
    (xudpFrame metadata payload).length = 2 + metadata.length + 2 + payload.length := by
  simp [xudpFrame]
  omega

/-- What the fields of a frame are, whatever stands behind it. -/
theorem xudpFrame_fields {metadata payload : Bytes} (hmeta : metadata.length < 65536)
    (hpayload : payload.length < 65536) (more : Bytes) :
    be16At (xudpFrame metadata payload ++ more) 0 = metadata.length ∧
    slice (xudpFrame metadata payload ++ more) 2 (2 + metadata.length) = metadata ∧
    be16At (xudpFrame metadata payload ++ more) (2 + metadata.length) = payload.length ∧
    slice (xudpFrame metadata payload ++ more) (2 + metadata.length + 2)
      (2 + metadata.length + 2 + payload.length) = payload := by
  have hwhole : xudpFrame metadata payload ++ more =
      be16 metadata.length ++ (metadata ++ (be16 payload.length ++ (payload ++ more))) := by
    simp [xudpFrame]
  have hfront : (be16 metadata.length ++ metadata).length = 2 + metadata.length := by simp
  refine ⟨?_,?_,?_,?_⟩
  · rw [hwhole, be16At_be16, Nat.mod_eq_of_lt hmeta]
  · rw [hwhole]
    exact slice_middle (be16 metadata.length) metadata _
  · have h := be16At_middle (be16 metadata.length ++ metadata) hpayload (payload ++ more)
    rwa [hfront, List.append_assoc, ← hwhole] at h
  · have h := slice_middle (be16 metadata.length ++ metadata ++ be16 payload.length) payload more
    rw [List.length_append, hfront, be16_length, List.append_assoc, List.append_assoc] at h
    rwa [hwhole]

/-- What a frame gives to the caller, by its metadata. -/
def packetOf (metadata payload : Bytes) (target : Option TargetAddress) : Option XudpPacket :=
  if byteAt metadata 2 = 4 ∨ byteAt metadata 3 &&& 1 = 0 ∨ payload = [] then none
  else some ⟨target, payload⟩

/-- The turn for every beginning of a stream that starts with a frame: the frame is found
as soon as it is there, and not before. -/
theorem xudpTurn_xudpFrame {metadata payload : Bytes} {target : Option TargetAddress}
    (hpos : 4 ≤ metadata.length) (hmeta : metadata.length < 65536)
    (hpayload : payload.length < 65536) (htarget : decodeTarget metadata = .ok target)
    {buffer more : Bytes} (hbuffer : buffer <+: xudpFrame metadata payload ++ more) :
    xudpTurn buffer =
      if buffer.length < (xudpFrame metadata payload).length then .incomplete
      else .frame (xudpFrame metadata payload).length (packetOf metadata payload target) := by
  obtain ⟨hlen,hslice,hlen',hslice'⟩ := xudpFrame_fields hmeta hpayload more
  rw [List.prefix_iff_eq_take.mp hbuffer, xudpFrame_length]
  have hle := hbuffer.length_le
  generalize hn : buffer.length = n at hle
  generalize xudpFrame metadata payload ++ more = whole at hle hlen hslice hlen' hslice'
  have htake : (whole.take n).length = n := List.length_take_of_le hle
  unfold xudpTurn
  rw [htake]
  by_cases h₂ : n < 2
  · rw [if_pos h₂, if_pos (by omega)]
  · rw [if_neg h₂, be16At_take (by omega), hlen]
    dsimp only
    rw [if_neg (by omega)]
    by_cases hshort : n < 2 + metadata.length + 2
    · rw [if_pos hshort, if_pos (by omega)]
    · rw [if_neg hshort, slice_take (by omega), hslice, htarget, be16At_take (by omega), hlen']
      dsimp only
      by_cases hrest : n < 2 + metadata.length + 2 + payload.length
      · rw [if_pos hrest, if_pos hrest]
      · rw [if_neg hrest, if_neg hrest, slice_take (by omega), hslice', packetOf]
        split <;> rfl

theorem encodeXudpPacket_frame {target : TargetAddress} {payload frame : Bytes}
    {firstPacket : Bool} (h : encodeXudpPacket target payload firstPacket = .ok frame) :
    payload.length < 65536 ∧ ∃ address, encodePortThenAddress target = .ok address ∧
      (xudpMetadata address firstPacket).length < 65536 ∧
      frame = xudpFrame (xudpMetadata address firstPacket) payload := by
  unfold encodeXudpPacket at h
  split at h
  · cases h
  · split at h
    · cases h
    · next address haddress =>
      have hmetadata : (if 65535 < (xudpMetadata address firstPacket).length then
          .error "XUDP metadata is too large"
        else .ok (be16 (xudpMetadata address firstPacket).length ++
          xudpMetadata address firstPacket ++ be16 payload.length ++ payload) :
            Except String Bytes) = .ok frame := h
      by_cases hlong : 65535 < (xudpMetadata address firstPacket).length
      · rw [if_pos hlong] at hmetadata
        cases hmetadata
      · rw [if_neg hlong] at hmetadata
        cases hmetadata
        exact ⟨by omega,address,haddress,by omega,by simp [xudpFrame]⟩

theorem decodeTarget_xudpMetadata {target : TargetAddress} {address : Bytes}
    (h : encodePortThenAddress target = .ok address) (firstPacket : Bool) :
    decodeTarget (xudpMetadata address firstPacket) = .ok (some (canonicalTarget target)) := by
  have hdrop : (xudpMetadata address firstPacket).drop 5 =
      address ++ if firstPacket then List.replicate 8 0 else [] := by simp [xudpMetadata]
  have hnetwork : 4 < (xudpMetadata address firstPacket).length ∧
      byteAt (xudpMetadata address firstPacket) 4 = 2 := by simp [xudpMetadata, byteAt]
  rw [decodeTarget, if_pos hnetwork, hdrop, decodePortThenAddress_encode h]
  rfl

/-- A packet to be sent. -/
structure Outgoing where
  target : TargetAddress
  payload : Bytes
  firstPacket : Bool
deriving DecidableEq, Repr

namespace Outgoing

def frame (p : Outgoing) : Except String Bytes :=
  encodeXudpPacket p.target p.payload p.firstPacket

/-- What the receiver is to get. -/
def received (p : Outgoing) : XudpPacket := ⟨some (canonicalTarget p.target), p.payload⟩

/-- The format has room for the packet, and there is something in it. -/
def Carried (p : Outgoing) : Prop := Encodable p.target p.payload ∧ p.payload ≠ []

instance (p : Outgoing) : Decidable p.Carried := inferInstanceAs (Decidable (_ ∧ _))

theorem xudpTurn_frame {p : Outgoing} {bytes : Bytes} (h : p.frame = .ok bytes) (hne : p.payload ≠ [])
    {buffer more : Bytes} (hbuffer : buffer <+: bytes ++ more) :
    xudpTurn buffer =
      if buffer.length < bytes.length then .incomplete
      else .frame bytes.length (some p.received) := by
  obtain ⟨hpayload,address,haddress,hmeta,rfl⟩ := encodeXudpPacket_frame h
  have hpos : 4 ≤ (xudpMetadata address p.firstPacket).length := by
    simp [xudpMetadata]
  have hstatus : byteAt (xudpMetadata address p.firstPacket) 2 ≠ 4 := by
    cases p.firstPacket <;> simp [xudpMetadata, byteAt]
  have hoption : byteAt (xudpMetadata address p.firstPacket) 3 &&& 1 ≠ 0 := by
    simp [xudpMetadata, byteAt]
  have hpacket : packetOf (xudpMetadata address p.firstPacket) p.payload
      (some (canonicalTarget p.target)) = some p.received := by
    simp [packetOf, received, hstatus, hoption, hne]
  rw [← hpacket]
  exact xudpTurn_xudpFrame hpos hmeta hpayload (decodeTarget_xudpMetadata haddress p.firstPacket)
    hbuffer

theorem Carried.frame {p : Outgoing} (h : p.Carried) : ∃ bytes, p.frame = .ok bytes :=
  (encodeXudpPacket_ok_iff p.target p.payload p.firstPacket).mpr h.1

end Outgoing

/-! ## Streams -/

/-- The frames of the packets, one after another. -/
def xudpStream : List Outgoing → Except String Bytes
  | [] => .ok []
  | p :: ps =>
    match p.frame, xudpStream ps with
    | .ok bytes, .ok rest => .ok (bytes ++ rest)
    | .error err, _ | .ok _, .error err => .error err

theorem xudpStream_cons {p : Outgoing} {ps : List Outgoing} {bytes rest : Bytes}
    (h : p.frame = .ok bytes) (hrest : xudpStream ps = .ok rest) :
    xudpStream (p :: ps) = .ok (bytes ++ rest) := by
  rw [xudpStream, h, hrest]

/-- A frame in a stream and what it gives to the caller. -/
structure Piece where
  bytes : Bytes
  packet : Option XudpPacket

/-- The piece is found as soon as it is there, and not before. -/
def Piece.Taken (piece : Piece) : Prop :=
  ∀ buffer more, buffer <+: piece.bytes ++ more →
    xudpTurn buffer =
      if buffer.length < piece.bytes.length then .incomplete
      else .frame piece.bytes.length piece.packet

/-- Nothing waits behind a whole piece. -/
theorem Piece.Taken.not_incomplete {piece : Piece} (h : piece.Taken) {buffer : Bytes}
    (hwhole : piece.bytes <+: buffer) : xudpTurn buffer ≠ .incomplete := by
  obtain ⟨more,rfl⟩ := hwhole
  have hturn := h _ more (List.prefix_refl _)
  rw [if_neg (by simp)] at hturn
  rw [hturn]
  intro hincomplete
  cases hincomplete

theorem xudpTurn_nil : xudpTurn [] = .incomplete := rfl

/-- How a call ends that has gone over some pieces: nothing more is to be had, or the last
of them gives a packet. -/
inductive Call (buffer rest : Bytes) (pieces : List Piece) : Prop where
  | waits : pieces.filterMap Piece.packet = [] → xudpTurn rest = .incomplete →
      takeXudpPacket buffer = (.ok none, rest) → Call buffer rest pieces
  | packet (packet : XudpPacket) : pieces.filterMap Piece.packet = [packet] →
      takeXudpPacket buffer = (.ok (some packet), rest) → Call buffer rest pieces

/-- A call while the buffer is a beginning of the pieces that are left. -/
theorem takeXudpPacket_pieces {left : List Piece} (h : ∀ piece ∈ left, piece.Taken) {buffer : Bytes}
    (hbuffer : buffer <+: left.flatMap Piece.bytes) :
    ∃ more left' rest, left = more ++ left' ∧ buffer = more.flatMap Piece.bytes ++ rest ∧
      Call buffer rest more := by
  induction left generalizing buffer with
  | nil =>
    rw [List.flatMap_nil, List.prefix_nil] at hbuffer
    subst hbuffer
    exact ⟨[],[],[],rfl,rfl,.waits rfl xudpTurn_nil (takeXudpPacket_incomplete xudpTurn_nil)⟩
  | cons piece left ih =>
    obtain ⟨hpiece,hleft⟩ := List.forall_mem_cons.mp h
    have hturn := hpiece buffer (left.flatMap Piece.bytes) hbuffer
    by_cases hshort : buffer.length < piece.bytes.length
    · rw [if_pos hshort] at hturn
      exact ⟨[],piece :: left,buffer,rfl,rfl,.waits rfl hturn (takeXudpPacket_incomplete hturn)⟩
    · rw [if_neg hshort] at hturn
      rw [List.flatMap_cons] at hbuffer
      have hfront : piece.bytes <+: buffer :=
        List.prefix_of_prefix_length_le (List.prefix_append _ _) hbuffer (Nat.le_of_not_lt hshort)
      obtain ⟨tail,rfl⟩ := hfront
      cases hpacket : piece.packet with
      | some packet =>
        rw [hpacket] at hturn
        refine ⟨[piece],left,tail,rfl,by simp,.packet packet (by simp [hpacket]) ?_⟩
        rw [takeXudpPacket_packet hturn, List.drop_left]
      | none =>
        -- the loop goes on behind the frame
        rw [hpacket] at hturn
        obtain ⟨more,left',rest,hsplit,htail,hcall⟩ :=
          ih hleft ((List.prefix_append_right_inj _).mp hbuffer)
        have hskip := takeXudpPacket_skip hturn
        rw [List.drop_left] at hskip
        refine ⟨piece :: more,left',rest,by rw [hsplit]; rfl,by simp [htail],?_⟩
        cases hcall with
        | waits hnone hincomplete hcall =>
          exact .waits (by simp [hpacket, hnone]) hincomplete (hskip.trans hcall)
        | packet packet hone hcall =>
          exact .packet packet (by simp [hpacket, hone]) (hskip.trans hcall)

/-- The frame of a packet, as a piece. -/
def Outgoing.piece (p : Outgoing) : Piece :=
  ⟨match p.frame with | .ok bytes => bytes | .error _ => [], some p.received⟩

theorem Outgoing.piece_bytes {p : Outgoing} {bytes : Bytes} (h : p.frame = .ok bytes) :
    p.piece.bytes = bytes := by
  simp [piece, h]

theorem Outgoing.Carried.taken {p : Outgoing} (h : p.Carried) : p.piece.Taken := by
  obtain ⟨bytes,hframe⟩ := h.frame
  intro buffer more hbuffer
  rw [piece_bytes hframe] at hbuffer ⊢
  exact xudpTurn_frame hframe h.2 hbuffer

theorem xudpStream_pieces {packets : List Outgoing} (h : ∀ p ∈ packets, p.Carried) :
    xudpStream packets = .ok ((packets.map Outgoing.piece).flatMap Piece.bytes) := by
  induction packets with
  | nil => rfl
  | cons p ps ih =>
    obtain ⟨hp,hps⟩ := List.forall_mem_cons.mp h
    obtain ⟨bytes,hframe⟩ := hp.frame
    rw [xudpStream_cons hframe (ih hps), List.map_cons, List.flatMap_cons,
      Outgoing.piece_bytes hframe]

theorem filterMap_pieces (packets : List Outgoing) :
    (packets.map Outgoing.piece).filterMap Piece.packet = packets.map Outgoing.received := by
  induction packets with
  | nil => rfl
  | cons p ps ih => simp [Outgoing.piece, ← ih]

/-- The receiving side: its buffer, what it has been given so far, and the answer of the
last call if nothing has arrived since. -/
structure XudpReader where
  buffer : Bytes
  packets : List XudpPacket
  answer : Option (Except String (Option XudpPacket))
deriving Repr

namespace XudpReader

def new : XudpReader := ⟨[], [], none⟩

def append (r : XudpReader) (segment : Bytes) : XudpReader :=
  { r with buffer := r.buffer ++ segment, answer := none }

def take (r : XudpReader) : XudpReader :=
  let (answer, buffer) := takeXudpPacket r.buffer
  match answer with
  | .ok (some packet) => ⟨buffer, r.packets ++ [packet], some answer⟩
  | _ => ⟨buffer, r.packets, some answer⟩

theorem take_none {r : XudpReader} {rest : Bytes} (h : takeXudpPacket r.buffer = (.ok none, rest)) :
    r.take = ⟨rest, r.packets, some (.ok none)⟩ := by
  rw [take, h]

theorem take_packet {r : XudpReader} {packet : XudpPacket} {rest : Bytes}
    (h : takeXudpPacket r.buffer = (.ok (some packet), rest)) :
    r.take = ⟨rest, r.packets ++ [packet], some (.ok (some packet))⟩ := by
  rw [take, h]

/-- Segments arrive and packets are asked for in any order; the bytes are all that has
arrived. -/
inductive Receives : Bytes → XudpReader → Prop where
  | new : Receives [] new
  | append {got r} (segment : Bytes) : Receives got r → Receives (got ++ segment) (r.append segment)
  | take {got r} : Receives got r → Receives got r.take

/-- The reader has taken the first pieces of the stream, and its buffer starts where they
end. -/
structure At (pieces : List Piece) (got : Bytes) (r : XudpReader) (taken left : List Piece) :
    Prop where
  split : pieces = taken ++ left
  handed : r.packets = taken.filterMap Piece.packet
  buffered : got = taken.flatMap Piece.bytes ++ r.buffer
  answered : ∀ err, r.answer ≠ some (.error err)
  waits : r.answer = some (.ok none) → xudpTurn r.buffer = .incomplete

/-- While the bytes are a beginning of the stream, the buffer is one of what is left. -/
theorem At.left_prefix {pieces taken left : List Piece} {got : Bytes} {r : XudpReader}
    (hat : At pieces got r taken left) (hgot : got <+: pieces.flatMap Piece.bytes) :
    r.buffer <+: left.flatMap Piece.bytes := by
  rw [hat.buffered, hat.split, List.flatMap_append] at hgot
  exact (List.prefix_append_right_inj _).mp hgot

theorem Receives.at {pieces : List Piece} (h : ∀ piece ∈ pieces, piece.Taken) {got : Bytes}
    {r : XudpReader} (hr : Receives got r) (hgot : got <+: pieces.flatMap Piece.bytes) :
    ∃ taken left, At pieces got r taken left := by
  induction hr with
  | new =>
    refine ⟨[],pieces,rfl,rfl,rfl,?_,?_⟩
    · intro err herr; cases herr
    · intro hans; cases hans
  | append segment _ ih =>
    obtain ⟨taken,left,hat⟩ := ih ((List.prefix_append _ _).trans hgot)
    refine ⟨taken,left,hat.split,hat.handed,?_,?_,?_⟩
    · rw [hat.buffered, List.append_assoc]
      rfl
    · intro err herr; cases herr
    · intro hans; cases hans
  | take _ ih =>
    obtain ⟨taken,left,hat⟩ := ih hgot
    have hleft : ∀ piece ∈ left, piece.Taken := fun piece hmem =>
      h piece (hat.split ▸ List.mem_append_right taken hmem)
    obtain ⟨more,left',rest,hsplit,hbuffer,hcall⟩ :=
      takeXudpPacket_pieces hleft (hat.left_prefix hgot)
    have hpieces : pieces = (taken ++ more) ++ left' := by
      rw [hat.split, hsplit, List.append_assoc]
    cases hcall with
    | waits hnone hturn hcall =>
      rw [take_none hcall]
      refine ⟨taken ++ more,left',hpieces,?_,?_,?_,fun _ => hturn⟩
      · rw [List.filterMap_append, hnone, List.append_nil, hat.handed]
      · rw [hat.buffered, hbuffer, List.flatMap_append, List.append_assoc]
      · intro err herr; cases herr
    | packet packet hone hcall =>
      rw [take_packet hcall]
      refine ⟨taken ++ more,left',hpieces,?_,?_,?_,?_⟩
      · rw [List.filterMap_append, hone, hat.handed]
      · rw [hat.buffered, hbuffer, List.flatMap_append, List.append_assoc]
      · intro err herr; cases herr
      · intro hans; cases hans

/-- The packets of a stream come out in order, nothing of a frame that is not whole is
gone, and when all has arrived and no more is to be had, all packets have come out. -/
structure Exact (packets : List Outgoing) (bytes got : Bytes) (r : XudpReader) : Prop where
  no_error : ∀ err, r.answer ≠ some (.error err)
  in_order : ∃ given left front, packets = given ++ left ∧ xudpStream given = .ok front ∧
    r.packets = given.map Outgoing.received ∧ got = front ++ r.buffer
  all : got = bytes → r.answer = some (.ok none) →
    r.packets = packets.map Outgoing.received ∧ r.buffer = []

end XudpReader

/-- Whatever the segments are and whenever packets are asked for, the stream of the
frames is read as the packets that were encoded. -/
theorem xudp_stream_codec (packets : List Outgoing) (h : ∀ p ∈ packets, p.Carried) :
    ∃ bytes, xudpStream packets = .ok bytes ∧
      (∀ got r, got <+: bytes → XudpReader.Receives got r → XudpReader.Exact packets bytes got r) ∧
      ∀ buffer rest, takeXudpPacket buffer = (.ok none, rest) →
        ∃ frames : List Bytes, (∀ frame ∈ frames, WholeFrame frame) ∧
          buffer = frames.flatten ++ rest ∧ ∀ n, ¬ WholeFrame (rest.take n) := by
  have hstream := xudpStream_pieces h
  have htaken : ∀ piece ∈ packets.map Outgoing.piece, piece.Taken := by
    intro piece hpiece
    obtain ⟨p,hp,rfl⟩ := List.mem_map.mp hpiece
    exact (h p hp).taken
  refine ⟨_,hstream,?_,fun buffer rest => takeXudpPacket_none⟩
  intro got r hgot hr
  obtain ⟨taken,rest,hat⟩ := hr.at htaken hgot
  obtain ⟨given,left,hsplit,rfl,rfl⟩ := List.map_eq_append_iff.mp hat.split
  have hgiven : ∀ p ∈ given, p.Carried := fun p hp => h p (hsplit ▸ List.mem_append_left left hp)
  have hhanded : r.packets = given.map Outgoing.received := by
    rw [hat.handed, filterMap_pieces]
  refine ⟨hat.answered,⟨given,left,_,hsplit,xudpStream_pieces hgiven,hhanded,hat.buffered⟩,?_⟩
  intro heq hanswer
  have hbuffer : r.buffer = (left.map Outgoing.piece).flatMap Piece.bytes := by
    have hall := hat.buffered
    rw [heq, hsplit, List.map_append, List.flatMap_append] at hall
    exact (List.append_cancel_left hall).symm
  cases left with
  | nil =>
    rw [List.append_nil] at hsplit
    exact ⟨hhanded.trans (by rw [hsplit]),hbuffer⟩
  | cons p ps =>
    -- the frame of `p` is there, so the last call would have taken it
    have hp : p ∈ packets := hsplit ▸ List.mem_append_right given List.mem_cons_self
    have hwhole : p.piece.bytes <+: r.buffer := by
      rw [hbuffer]
      exact List.prefix_append _ _
    exact absurd (hat.waits hanswer) ((h p hp).taken.not_incomplete hwhole)

/-- An IPv6 literal in a longer spelling, then a name. -/
def samplePackets : List Outgoing :=
  [⟨⟨"2001:DB8:0:0:0:0:0:1", 53⟩, [1, 2], true⟩, ⟨⟨"dns.google", 53⟩, [3], false⟩]

theorem xudp_stream_codec_sample :
    ∃ bytes, xudpStream samplePackets = .ok bytes ∧
      (∀ got r, got <+: bytes → XudpReader.Receives got r →
        XudpReader.Exact samplePackets bytes got r) ∧
      ∀ buffer rest, takeXudpPacket buffer = (.ok none, rest) →
        ∃ frames : List Bytes, (∀ frame ∈ frames, WholeFrame frame) ∧
          buffer = frames.flatten ++ rest ∧ ∀ n, ¬ WholeFrame (rest.take n) :=
  xudp_stream_codec samplePackets (by decide +kernel)

end AtlasKernel.Vless
