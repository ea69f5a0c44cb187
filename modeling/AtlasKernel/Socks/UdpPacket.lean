import AtlasKernel.Lib.IpText
import AtlasKernel.Shadowsocks.UdpTarget
import AtlasKernel.Vless.XudpCodec

/-! The datagrams of a SOCKS5 UDP association: a header, the address of the far side, and
the payload. What is taken out of the packet by an index panics where the packet ends
before it. Source: `main.rs`. -/
namespace AtlasKernel.Socks
open AtlasKernel.Lib AtlasKernel.Vless AtlasKernel.Shadowsocks

inductive Failure where
  | bail (message : String)
  | panicked
deriving DecidableEq, Repr

/-- `packet[index]` -/
def byte (packet : Bytes) (index : Nat) : Except Failure UInt8 :=
  match packet[index]? with
  | some b => .ok b
  | none => .error .panicked

/-- `&packet[start..stop]` -/
def range (packet : Bytes) (start stop : Nat) : Except Failure Bytes :=
  if start ≤ stop ∧ stop ≤ packet.length then .ok (slice packet start stop) else .error .panicked

/-- `octets.copy_from_slice(source)`, which wants sixteen bytes. -/
def ipv6Octets (source : Bytes) : Except Failure Ipv6Addr :=
  if h : source.length = 16 then .ok ⟨source, h⟩ else .error .panicked

/-- `packet.len() < 4 || packet[0] != 0 || packet[1] != 0 || packet[2] != 0` -/
def headerInvalid (packet : Bytes) : Except Failure Bool :=
  if packet.length < 4 then .ok true
  else do
    if (← byte packet 0) ≠ 0 then return true
    if (← byte packet 1) ≠ 0 then return true
    return (← byte packet 2) ≠ 0

/-- The host by its type, and the index behind it. -/
def parseHost (packet : Bytes) (atyp : UInt8) : Except Failure (String × Nat) :=
  let index := 4
  if atyp = 0x01 then
    if packet.length < index + 4 then .error (.bail "truncated SOCKS UDP IPv4 address")
    else do
      let a ← byte packet index
      let b ← byte packet (index + 1)
      let c ← byte packet (index + 2)
      let d ← byte packet (index + 3)
      return (String.ofList (Ipv4Addr.text ⟨[a, b, c, d], rfl⟩), index + 4)
  else if atyp = 0x03 then
    if packet.length < index + 1 then .error (.bail "truncated SOCKS UDP domain length")
    else do
      let len ← byte packet index
      let index := index + 1
      if packet.length < index + len.toNat then .error (.bail "truncated SOCKS UDP domain")
      else
        let name ← range packet index (index + len.toNat)
        let host ← (fromUtf8 name).mapError .bail
        return (host, index + len.toNat)
  else if atyp = 0x04 then
    if packet.length < index + 16 then .error (.bail "truncated SOCKS UDP IPv6 address")
    else do
      let octets ← ipv6Octets (← range packet index (index + 16))
      return (String.ofList octets.text, index + 16)
  else .error (.bail "unsupported SOCKS UDP address type")

def parseSocksUdpPacket (packet : Bytes) : Except Failure (TargetAddress × Bytes) := do
  if ← headerInvalid packet then .error (.bail "invalid SOCKS UDP header")
  else
    let (host, index) ← parseHost packet (← byte packet 3)
    if packet.length < index + 2 then .error (.bail "truncated SOCKS UDP port")
    else
      let hi ← byte packet index
      let lo ← byte packet (index + 1)
      let index := index + 2
      let payload ← range packet index packet.length
      return (⟨host, UInt16.ofNat (ofBe16 hi lo)⟩, payload)

def buildSocksUdpPacket (target : TargetAddress) (payload : Bytes) : Except String Bytes :=
  let packet := [0, 0, 0]
  let port := be16 target.port.toNat
  match parseIpv4 target.hostBytes with
  | some octets => .ok (packet ++ [0x01] ++ octets ++ port ++ payload)
  | none =>
    match parseIpv6 target.hostBytes with
    | some octets => .ok (packet ++ [0x04] ++ octets ++ port ++ payload)
    | none =>
      let host := target.hostBytes
      if 255 < host.length then .error "SOCKS UDP response domain is too long"
      else .ok (packet ++ [0x03] ++ [UInt8.ofNat host.length] ++ host ++ port ++ payload)

/-! ## What a datagram says -/

/-- The header, the address and the payload, in this order. -/
def udpPacket (endpoint : Endpoint) (payload : Bytes) : Bytes :=
  [0, 0, 0] ++ (endpoint.host.bytes socksCodes ++ (be16 endpoint.port.toNat ++ payload))

/-- A datagram that says where its payload is to go. -/
def WellFormed (packet : Bytes) : Prop :=
  ∃ endpoint payload, endpoint.host.Fits ∧ packet = udpPacket endpoint payload

/-- What is read of an endpoint. -/
def targetOf (endpoint : Endpoint) : TargetAddress := ⟨endpoint.host.text, endpoint.port⟩

/-! ## Indices that are there -/

theorem ok_bind {α β : Type} (a : α) (f : α → Except Failure β) : (Except.ok a >>= f) = f a := rfl

theorem range_middle (as bs cs : Bytes) :
    range (as ++ (bs ++ cs)) as.length (as.length + bs.length) = .ok bs := by
  rw [range, if_pos (by simp), slice_middle]

theorem range_end (as bs : Bytes) : range (as ++ bs) as.length (as ++ bs).length = .ok bs := by
  have h := range_middle as bs []
  rwa [List.append_nil, ← List.length_append] at h

theorem byte_behind (as : Bytes) (b : UInt8) (bs : Bytes) :
    byte (as ++ b :: bs) as.length = .ok b := by
  simp [byte]

theorem byte_behind_succ (as : Bytes) (a b : UInt8) (bs : Bytes) :
    byte (as ++ a :: b :: bs) (as.length + 1) = .ok b := by
  have h := byte_behind (as ++ [a]) b bs
  rwa [List.append_assoc, List.length_append] at h

theorem headerInvalid_eq (a b c atyp : UInt8) (rest : Bytes) :
    headerInvalid (a :: b :: c :: atyp :: rest) = .ok (decide ¬ (a = 0 ∧ b = 0 ∧ c = 0)) := by
  have hlong : ¬ (a :: b :: c :: atyp :: rest).length < 4 := by simp
  have ha : byte (a :: b :: c :: atyp :: rest) 0 = .ok a := rfl
  have hb : byte (a :: b :: c :: atyp :: rest) 1 = .ok b := rfl
  have hc : byte (a :: b :: c :: atyp :: rest) 2 = .ok c := rfl
  rw [headerInvalid, if_neg hlong, ha, hb, hc]
  by_cases ha0 : a = 0
  · by_cases hb0 : b = 0
    · simp [ok_bind, pure, Except.pure, ha0, hb0]
    · simp [ok_bind, pure, Except.pure, ha0, hb0]
  · simp [ok_bind, pure, Except.pure, ha0]

/-! ## What is written is read -/

theorem parseHost_ipv4 (a b c d w x y z : UInt8) (rest : Bytes) :
    parseHost (a :: b :: c :: d :: w :: x :: y :: z :: rest) 0x01 =
      .ok (String.ofList (Ipv4Addr.text ⟨[w, x, y, z],rfl⟩), 8) := by
  have hlong : ¬ (a :: b :: c :: d :: w :: x :: y :: z :: rest).length < 4 + 4 := by simp
  rw [parseHost, if_pos rfl, if_neg hlong]
  rfl

theorem parseHost_ipv6 (a b c d : UInt8) (ip : Ipv6Addr) (rest : Bytes) :
    parseHost (a :: b :: c :: d :: (ip.octets ++ rest)) 0x04 =
      .ok (String.ofList ip.text, 20) := by
  have hlong : ¬ (a :: b :: c :: d :: (ip.octets ++ rest)).length < 4 + 16 := by
    simp [ip.size]
  have hrange := range_middle [a,b,c,d] ip.octets rest
  rw [ip.size] at hrange
  have hrange' : range (a :: b :: c :: d :: (ip.octets ++ rest)) 4 (4 + 16) = .ok ip.octets :=
    hrange
  have hoctets : ipv6Octets ip.octets = .ok ip := dif_pos ip.size
  rw [parseHost, if_neg (by decide), if_neg (by decide), if_pos rfl, if_neg hlong, hrange',
    ok_bind, hoctets]
  rfl

/-- A name, whatever it is, is read to its length. -/
theorem parseHost_name (a b c d len : UInt8) {name : Bytes} (hname : name.length = len.toNat)
    (rest : Bytes) :
    parseHost (a :: b :: c :: d :: len :: (name ++ rest)) 0x03 =
      ((fromUtf8 name).mapError Failure.bail).map fun host => (host, 5 + len.toNat) := by
  have hlong : ¬ (a :: b :: c :: d :: len :: (name ++ rest)).length < 4 + 1 := by simp
  have hlong' : ¬ (a :: b :: c :: d :: len :: (name ++ rest)).length < 4 + 1 + len.toNat := by
    simp [hname]
    omega
  have hlen : byte (a :: b :: c :: d :: len :: (name ++ rest)) 4 = .ok len := rfl
  have hrange := range_middle [a,b,c,d,len] name rest
  rw [hname] at hrange
  have hrange' : range (a :: b :: c :: d :: len :: (name ++ rest)) (4 + 1) (4 + 1 + len.toNat) =
    .ok name := hrange
  rw [parseHost, if_neg (by decide), if_pos rfl, if_neg hlong, hlen, ok_bind, if_neg hlong',
    hrange', ok_bind]
  cases fromUtf8 name with
  | error err => rfl
  | ok host => rfl

theorem parseHost_bytes {host : Host} (h : host.Fits) (a b c : UInt8) (rest : Bytes) :
    ∃ atyp more, host.bytes socksCodes ++ rest = atyp :: more ∧
      parseHost (a :: b :: c :: atyp :: more) atyp =
        .ok (host.text, 3 + (host.bytes socksCodes).length) := by
  cases host with
  | ip address =>
    cases address with
    | v4 ip =>
      obtain ⟨octets,size⟩ := ip
      match octets, size with
      | [w,x,y,z], size => exact ⟨_,_,rfl,parseHost_ipv4 a b c 0x01 w x y z rest⟩
    | v6 ip =>
      have hlen : 3 + ((Host.ip (.v6 ip)).bytes socksCodes).length = 20 := by
        simp [Host.bytes, ip.size]
      rw [hlen]
      exact ⟨_,_,rfl,parseHost_ipv6 a b c 0x04 ip rest⟩
  | domain name =>
    have hbyte : (UInt8.ofNat (utf8 name.toList).length).toNat = (utf8 name.toList).length := by
      rw [UInt8.toNat_ofNat', Nat.mod_eq_of_lt (Nat.lt_succ_of_le h)]
    have hparse := parseHost_name a b c 0x03 _ hbyte.symm rest
    refine ⟨_,_,rfl,hparse.trans ?_⟩
    rw [fromUtf8_utf8, hbyte]
    simp [Except.mapError, Except.map, Host.text, Host.bytes]
    omega

/-- What stands behind the host: a port, and the payload. -/
theorem parse_behind {a b c atyp : UInt8} {rest front : Bytes} {host : String} {hi lo : UInt8}
    {payload : Bytes} (hzero : a = 0 ∧ b = 0 ∧ c = 0)
    (hsplit : a :: b :: c :: atyp :: rest = front ++ (hi :: lo :: payload))
    (hhost : parseHost (a :: b :: c :: atyp :: rest) atyp = .ok (host, front.length)) :
    parseSocksUdpPacket (a :: b :: c :: atyp :: rest) =
      .ok (⟨host, UInt16.ofNat (ofBe16 hi lo)⟩, payload) := by
  have hheader : headerInvalid (a :: b :: c :: atyp :: rest) = .ok false := by
    rw [headerInvalid_eq]
    simp [hzero]
  have hatyp : byte (a :: b :: c :: atyp :: rest) 3 = .ok atyp := rfl
  have hhi := byte_behind front hi (lo :: payload)
  have hlo := byte_behind_succ front hi lo payload
  have hpayload := range_end (front ++ [hi,lo]) payload
  have hlong : ¬ (front ++ hi :: lo :: payload).length < front.length + 2 := by simp
  rw [List.append_assoc, List.length_append] at hpayload
  rw [parseSocksUdpPacket, hheader, ok_bind, if_neg (by decide), hatyp, ok_bind, hhost, ok_bind,
    hsplit]
  dsimp only
  rw [if_neg hlong, hhi, ok_bind, hlo, ok_bind]
  have hpayload' : range (front ++ hi :: lo :: payload) (front.length + 2)
      (front ++ hi :: lo :: payload).length = .ok payload := hpayload
  rw [hpayload', ok_bind]
  rfl

theorem parse_udpPacket {endpoint : Endpoint} (h : endpoint.host.Fits) (payload : Bytes) :
    parseSocksUdpPacket (udpPacket endpoint payload) = .ok (targetOf endpoint, payload) := by
  obtain ⟨atyp,more,hsplit,hhost⟩ :=
    parseHost_bytes h 0 0 0 (be16 endpoint.port.toNat ++ payload)
  have hfront : (0 :: 0 :: 0 :: endpoint.host.bytes socksCodes).length =
      3 + (endpoint.host.bytes socksCodes).length := by
    simp
    omega
  have hpacket : udpPacket endpoint payload = 0 :: 0 :: 0 :: atyp :: more :=
    congrArg ([0,0,0] ++ ·) hsplit
  have hsplit' : 0 :: 0 :: 0 :: atyp :: more = 0 :: 0 :: 0 :: endpoint.host.bytes socksCodes ++
      UInt8.ofNat (endpoint.port.toNat / 256) :: UInt8.ofNat endpoint.port.toNat :: payload :=
    hpacket.symm
  rw [← hfront] at hhost
  rw [hpacket, parse_behind ⟨rfl,rfl,rfl⟩ hsplit' hhost, ofBe16_of_lt endpoint.port.toNat_lt,
    UInt16.ofNat_toNat]
  rfl

/-! ## What is read was written -/

theorem parseHost_cases (a b c atyp : UInt8) (rest : Bytes) :
    (∃ message, parseHost (a :: b :: c :: atyp :: rest) atyp = .error (.bail message)) ∨
      ∃ (host : Host) (more : Bytes), host.Fits ∧ atyp :: rest = host.bytes socksCodes ++ more := by
  by_cases hipv4 : atyp = 0x01
  · subst hipv4
    match rest with
    | w :: x :: y :: z :: more => exact .inr ⟨.ip (.v4 ⟨[w,x,y,z],rfl⟩),more,trivial,rfl⟩
    | [] | [_] | [_,_] | [_,_,_] => exact .inl ⟨_,rfl⟩
  · by_cases hdomain : atyp = 0x03
    · subst hdomain
      match rest with
      | [] => exact .inl ⟨_,rfl⟩
      | len :: rest =>
        by_cases hshort : rest.length < len.toNat
        · have hpart : (a :: b :: c :: 0x03 :: len :: rest).length < 4 + 1 + len.toNat := by
            simp
            omega
          have hlen : byte (a :: b :: c :: 0x03 :: len :: rest) 4 = .ok len := rfl
          refine .inl ⟨"truncated SOCKS UDP domain",?_⟩
          rw [parseHost, if_neg (by decide), if_pos rfl, if_neg (by simp), hlen, ok_bind,
            if_pos hpart]
        · have hname : (rest.take len.toNat).length = len.toNat := by
            rw [List.length_take]
            omega
          have hparse := parseHost_name a b c 0x03 len hname (rest.drop len.toNat)
          rw [List.take_append_drop] at hparse
          cases hhost : fromUtf8 (rest.take len.toNat) with
          | error err =>
            rw [hhost] at hparse
            exact .inl ⟨err,hparse⟩
          | ok host =>
            have htext := utf8_of_fromUtf8 hhost
            refine .inr ⟨.domain host,rest.drop len.toNat,?_,?_⟩
            · have hlt := len.toNat_lt
              rw [Host.Fits, htext, hname]
              omega
            · rw [Host.bytes, htext, hname, UInt8.ofNat_toNat]
              simp [socksCodes]
    · by_cases hipv6 : atyp = 0x04
      · subst hipv6
        by_cases hshort : rest.length < 16
        · have hpart : (a :: b :: c :: 0x04 :: rest).length < 4 + 16 := by
            simp
            omega
          refine .inl ⟨"truncated SOCKS UDP IPv6 address",?_⟩
          rw [parseHost, if_neg (by decide), if_neg (by decide), if_pos rfl, if_pos hpart]
        · have hsize : (rest.take 16).length = 16 := by
            rw [List.length_take]
            omega
          refine .inr ⟨.ip (.v6 ⟨rest.take 16,hsize⟩),rest.drop 16,trivial,?_⟩
          rw [Host.bytes, List.cons_append, List.take_append_drop]
          rfl
      · refine .inl ⟨"unsupported SOCKS UDP address type",?_⟩
        rw [parseHost, if_neg hipv4, if_neg hdomain, if_neg hipv6]

/-- A datagram is refused with a message, or it is a header, an endpoint and a payload, and
these are what is read. -/
theorem parseSocksUdpPacket_cases (packet : Bytes) :
    (∃ message, parseSocksUdpPacket packet = .error (.bail message)) ∨
      ∃ endpoint payload, endpoint.host.Fits ∧ packet = udpPacket endpoint payload ∧
        parseSocksUdpPacket packet = .ok (targetOf endpoint, payload) := by
  by_cases hlong : packet.length < 4
  · have hheader : headerInvalid packet = .ok true := by rw [headerInvalid, if_pos hlong]
    refine .inl ⟨"invalid SOCKS UDP header",?_⟩
    rw [parseSocksUdpPacket, hheader]
    rfl
  · obtain ⟨a,b,c,atyp,rest,rfl⟩ : ∃ a b c d more, packet = a :: b :: c :: d :: more := by
      match packet, hlong with
      | a :: b :: c :: d :: more, _ => exact ⟨a,b,c,d,more,rfl⟩
      | [], h | [_], h | [_,_], h | [_,_,_], h => simp at h
    by_cases hzero : a = 0 ∧ b = 0 ∧ c = 0
    · obtain ⟨rfl,rfl,rfl⟩ := hzero
      have hheader : headerInvalid (0 :: 0 :: 0 :: atyp :: rest) = .ok false := by
        rw [headerInvalid_eq]
        rfl
      have hatyp : byte (0 :: 0 :: 0 :: atyp :: rest) 3 = .ok atyp := rfl
      obtain ⟨message,herr⟩ | ⟨host,more,hfits,hsplit⟩ := parseHost_cases 0 0 0 atyp rest
      · refine .inl ⟨message,?_⟩
        rw [parseSocksUdpPacket, hheader, ok_bind, if_neg (by decide), hatyp, ok_bind, herr]
        rfl
      · obtain ⟨_,_,hbytes,hhost⟩ := parseHost_bytes hfits 0 0 0 more
        cases hsplit.trans hbytes
        match more with
        | [] | [_] =>
          have hpart : (0 :: 0 :: 0 :: atyp :: rest).length <
              3 + (host.bytes socksCodes).length + 2 := by
            simp [hsplit]
            omega
          refine .inl ⟨"truncated SOCKS UDP port",?_⟩
          rw [parseSocksUdpPacket, hheader, ok_bind, if_neg (by decide), hatyp, ok_bind, hhost,
            ok_bind]
          dsimp only
          rw [if_pos hpart]
        | hi :: lo :: payload =>
          have hport : be16 (UInt16.ofNat (ofBe16 hi lo)).toNat = [hi,lo] := by
            rw [UInt16.toNat_ofNat', Nat.mod_eq_of_lt (ofBe16_lt hi lo), be16_ofBe16]
          have hpacket : 0 :: 0 :: 0 :: atyp :: rest =
              udpPacket ⟨host,UInt16.ofNat (ofBe16 hi lo)⟩ payload := by
            rw [udpPacket, hport, hsplit]
            rfl
          refine .inr ⟨⟨host,UInt16.ofNat (ofBe16 hi lo)⟩,payload,hfits,hpacket,?_⟩
          rw [hpacket]
          exact parse_udpPacket hfits payload
    · refine .inl ⟨"invalid SOCKS UDP header",?_⟩
      rw [parseSocksUdpPacket, headerInvalid_eq, ok_bind, if_pos (decide_eq_true hzero)]

theorem parse_wellFormed {packet : Bytes} {target : TargetAddress} {payload : Bytes}
    (h : parseSocksUdpPacket packet = .ok (target, payload)) :
    ∃ endpoint : Endpoint, endpoint.host.Fits ∧ packet = udpPacket endpoint payload ∧
      target = targetOf endpoint := by
  obtain ⟨message,herr⟩ | ⟨endpoint,payload',hfits,hpacket,hparse⟩ :=
    parseSocksUdpPacket_cases packet
  · cases herr.symm.trans h
  · cases hparse.symm.trans h
    exact ⟨endpoint,hfits,hpacket,rfl⟩

theorem wellFormed_iff (packet : Bytes) :
    WellFormed packet ↔ (parseSocksUdpPacket packet).isOk = true := by
  constructor
  · rintro ⟨endpoint,payload,hfits,rfl⟩
    rw [parse_udpPacket hfits]
    rfl
  · intro h
    obtain ⟨message,herr⟩ | ⟨endpoint,payload,hfits,hpacket,-⟩ := parseSocksUdpPacket_cases packet
    · rw [herr] at h
      cases h
    · exact ⟨endpoint,payload,hfits,hpacket⟩

instance (packet : Bytes) : Decidable (WellFormed packet) :=
  decidable_of_iff _ (wellFormed_iff packet).symm

/-! ## Built again -/

theorem buildSocksUdpPacket_ok {target : TargetAddress} (h : HostFits target.hostBytes)
    (payload : Bytes) :
    buildSocksUdpPacket target payload =
      .ok (udpPacket ⟨Host.ofText target.host,target.port⟩ payload) := by
  have hfits := h.ofText_fits
  unfold buildSocksUdpPacket udpPacket
  unfold TargetAddress.hostBytes at h ⊢
  cases h₄ : parseIpv4 (utf8 target.host.toList) with
  | some octets =>
    rw [Host.ofText_ipv4 h₄]
    simp [Host.bytes, socksCodes]
  | none =>
    cases h₆ : parseIpv6 (utf8 target.host.toList) with
    | some octets =>
      rw [Host.ofText_ipv6 h₄ h₆]
      simp [Host.bytes, socksCodes]
    | none =>
      rw [Host.ofText_domain h₄ h₆] at hfits ⊢
      dsimp only
      rw [if_neg (Nat.not_lt.mpr hfits)]
      simp [Host.bytes, socksCodes]

/-- What fits an address field still fits it as text. -/
theorem targetOf_fits {endpoint : Endpoint} (h : endpoint.host.Fits) :
    HostFits (targetOf endpoint).hostBytes := by
  obtain ⟨host,port⟩ := endpoint
  cases host with
  | ip address =>
    cases address with
    | v4 ip =>
      have hparse := parseIpv4_text ip
      refine .inl ?_
      simp [targetOf, TargetAddress.hostBytes, Host.text, IpAddr.text, hparse]
    | v6 ip =>
      have hparse := parseIpv6_text ip
      refine .inr (.inl ?_)
      simp [targetOf, TargetAddress.hostBytes, Host.text, IpAddr.text, hparse]
  | domain name => exact .inr (.inr h)

/-- An IPv6 address has colons, and an IPv4 address has none. -/
theorem parseIpv4_ipv6Text (ip : Ipv6Addr) : parseIpv4 (utf8 ip.text) = none := by
  cases hparse : parseIpv4 (utf8 ip.text) with
  | none => rfl
  | some octets =>
    have htext := utf8_injective (parseIpv4_spelled hparse)
    have hcolon := ip.colon_mem_text
    rw [htext] at hcolon
    obtain hdot | hdigit := Ipv4Addr.mem_text hcolon
    · cases hdot
    · cases hdigit

/-- The canonical text of an address stands for the address. -/
theorem ofText_ipText (address : IpAddr) :
    Host.ofText (String.ofList address.text) = .ip address := by
  cases address with
  | v4 ip =>
    have hparse := parseIpv4_text ip
    rw [← @String.toList_ofList ip.text] at hparse
    exact Host.ofText_ipv4 hparse
  | v6 ip =>
    have hparse := parseIpv6_text ip
    have hnone := parseIpv4_ipv6Text ip
    rw [← @String.toList_ofList ip.text] at hparse hnone
    exact Host.ofText_ipv6 hnone hparse

theorem ofText_name {text name : String} (h : Host.ofText text = .domain name) : name = text := by
  unfold Host.ofText at h
  split at h
  · cases h
  · split at h
    · cases h
    · cases h
      rfl

theorem canonicalTarget_idem (target : TargetAddress) :
    canonicalTarget (canonicalTarget target) = canonicalTarget target := by
  have hhost : canonicalHost (canonicalHost target.host) = canonicalHost target.host := by
    cases hkind : Host.ofText target.host with
    | ip address => rw [canonicalHost, canonicalHost, hkind, Host.text, ofText_ipText, Host.text]
    | domain name =>
      have hname := ofText_name hkind
      rw [canonicalHost, canonicalHost, hkind, Host.text, hname, hkind, Host.text, hname]
  rw [canonicalTarget, canonicalTarget]
  simp only [hhost]

/-- Every datagram is read without a panic; what is built is read as its target, in canonical
spelling, and its payload; and so is what is built again from a datagram that was read. -/
theorem socks_udp_codec :
    (∀ packet, parseSocksUdpPacket packet ≠ .error .panicked) ∧
    (∀ target payload, HostFits target.hostBytes →
      ∃ packet, buildSocksUdpPacket target payload = .ok packet ∧
        parseSocksUdpPacket packet = .ok (canonicalTarget target, payload)) ∧
    (∀ packet target payload, parseSocksUdpPacket packet = .ok (target, payload) →
      ∃ again, buildSocksUdpPacket target payload = .ok again ∧
        parseSocksUdpPacket again = .ok (canonicalTarget target, payload)) ∧
    ∀ target, canonicalTarget (canonicalTarget target) = canonicalTarget target := by
  have hbuilt (target : TargetAddress) (payload : Bytes) (h : HostFits target.hostBytes) :
      ∃ packet, buildSocksUdpPacket target payload = .ok packet ∧
        parseSocksUdpPacket packet = .ok (canonicalTarget target, payload) :=
    ⟨_,buildSocksUdpPacket_ok h payload,parse_udpPacket h.ofText_fits payload⟩
  refine ⟨?_,hbuilt,?_,canonicalTarget_idem⟩
  · intro packet
    obtain ⟨message,herr⟩ | ⟨endpoint,payload,_,_,hparse⟩ := parseSocksUdpPacket_cases packet
    · rw [herr]
      simp
    · rw [hparse]
      simp
  · intro packet target payload h
    obtain ⟨endpoint,hfits,-,rfl⟩ := parse_wellFormed h
    exact hbuilt _ payload (targetOf_fits hfits)

end AtlasKernel.Socks
