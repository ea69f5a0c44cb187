import AtlasKernel.Lib.IpAddr

/-! The XUDP frames of the VLESS mux and the addresses in them.
Source: `adapter/vless.rs`, `session.rs`, `packet_session.rs`. -/
namespace AtlasKernel.Vless
open AtlasKernel.Lib

structure TargetAddress where
  host : String
  port : UInt16
deriving DecidableEq, Repr

def TargetAddress.hostBytes (target : TargetAddress) : Bytes := utf8 target.host.toList

/-- `format!("{}:{port}", host.to_ascii_lowercase())` -/
def packetTargetKey (host : String) (port : UInt16) : String :=
  host.toLower ++ ":" ++ toString port.toNat

def encodeAddress (host : Bytes) : Except String Bytes :=
  match parseIpv4 host with
  | some octets => .ok ([1] ++ octets)
  | none =>
    match parseIpv6 host with
    | some octets => .ok ([3] ++ octets)
    | none =>
      if 255 < host.length then
        .error "domain name is too long for VLESS address encoding"
      else .ok ([2, UInt8.ofNat host.length] ++ host)

def encodePortThenAddress (target : TargetAddress) : Except String Bytes :=
  (encodeAddress target.hostBytes).map (be16 target.port.toNat ++ ·)

def encodeXudpPacket (target : TargetAddress) (payload : Bytes) (firstPacket : Bool) :
    Except String Bytes :=
  if 65535 < payload.length then .error "XUDP payload is too large"
  else
    match encodePortThenAddress target with
    | .error err => .error err
    | .ok address =>
      let metadata := [0, 0] ++ [if firstPacket then 1 else 2, 1, 2] ++ address ++
        if firstPacket then List.replicate 8 0 else []
      if 65535 < metadata.length then .error "XUDP metadata is too large"
      else .ok (be16 metadata.length ++ metadata ++ be16 payload.length ++ payload)

/-- A host that fits an address field: an IP address, or a name of at most 255 bytes. -/
def HostFits (host : Bytes) : Prop :=
  parseIpv4 host ≠ none ∨ parseIpv6 host ≠ none ∨ host.length ≤ 255

instance (host : Bytes) : Decidable (HostFits host) := inferInstanceAs (Decidable (_ ∨ _ ∨ _))

/-- A packet the frame format has room for. -/
def Encodable (target : TargetAddress) (payload : Bytes) : Prop :=
  payload.length ≤ 65535 ∧ HostFits target.hostBytes

instance (target : TargetAddress) (payload : Bytes) : Decidable (Encodable target payload) :=
  inferInstanceAs (Decidable (_ ∧ _))

/-- The address takes at most a type, a length and 255 bytes. -/
theorem encodeAddress_length {host address : Bytes} (h : encodeAddress host = .ok address) :
    address.length ≤ 257 := by
  unfold encodeAddress at h
  cases hipv4 : parseIpv4 host with
  | some octets =>
    rw [hipv4] at h
    cases h
    simp [parseIpv4_length hipv4]
  | none =>
    rw [hipv4] at h
    cases hipv6 : parseIpv6 host with
    | some octets =>
      rw [hipv6] at h
      cases h
      simp [parseIpv6_length hipv6]
    | none =>
      simp only [hipv6] at h
      split at h
      · cases h
      · cases h
        simp
        omega

theorem encodeAddress_ok_iff (host : Bytes) :
    (∃ address, encodeAddress host = .ok address) ↔ HostFits host := by
  unfold encodeAddress HostFits
  cases parseIpv4 host with
  | some octets => simp
  | none =>
    cases parseIpv6 host with
    | some octets => simp
    | none =>
      by_cases hlong : 255 < host.length
      · simp [hlong]
      · simp [hlong, Nat.le_of_not_lt hlong]

/-- Encoding fails exactly for what the format has no room for. -/
theorem encodeXudpPacket_ok_iff (target : TargetAddress) (payload : Bytes) (firstPacket : Bool) :
    (∃ frame, encodeXudpPacket target payload firstPacket = .ok frame) ↔
      Encodable target payload := by
  have haddress := encodeAddress_ok_iff target.hostBytes
  unfold encodeXudpPacket encodePortThenAddress Encodable
  rw [← haddress]
  by_cases hlong : 65535 < payload.length
  · have hlong' : ¬ payload.length ≤ 65535 := by omega
    simp [hlong, hlong']
  · rw [if_neg hlong]
    cases henc : encodeAddress target.hostBytes with
    | error err => simp [Except.map]
    | ok address =>
      have hlen := encodeAddress_length henc
      have hmeta : ¬ 65535 < ([0, 0] ++ [if firstPacket then 1 else 2, 1, 2] ++
          (be16 target.port.toNat ++ address) ++
          if firstPacket then List.replicate 8 0 else [] : Bytes).length := by
        cases firstPacket <;> simp <;> omega
      simp only [Except.map, if_neg hmeta]
      simp
      omega

end AtlasKernel.Vless
