import AtlasKernel.PacketSession.ReplyKeys

/-! UDP packets over one stream, as AnyTLS and Shadowsocks write them and read them back: an
address, a length and the payload, packet after packet. Source: `adapter/anytls.rs`,
`shadowsocks/uot.rs`. -/
namespace AtlasKernel.PacketSession
open AtlasKernel.Lib AtlasKernel.Vless AtlasKernel.Shadowsocks
variable {π β : Type*}

/-- The packets are written, and of their bytes, wherever they are cut, just these packets are
read before the end. -/
def ReadsBack (encode : π → Except String Bytes)
    (read : List Bytes → Except String (β × List Bytes)) (received : π → β) (packets : List π) : Prop :=
  ∃ outputs, packets.mapM encode = .ok outputs ∧ ∀ stream : List Bytes,
    stream.flatten = outputs.flatten →
      ∃ rest, readMany read packets.length stream = .ok (packets.map received, rest) ∧
        read rest = .error "early eof"

theorem mapM_ok {encode : π → Except String Bytes} {bytes : π → Bytes} {packets : List π}
    (h : ∀ p ∈ packets, encode p = .ok (bytes p)) :
    packets.mapM encode = .ok (packets.map bytes) := by
  induction packets with
  | nil => rfl
  | cons p packets ih =>
    rw [List.mapM_cons, h p List.mem_cons_self, ih fun q hq => h q (List.mem_cons_of_mem _ hq)]
    rfl

theorem readsBack_of_packets {encode : π → Except String Bytes} {bytes : π → Bytes}
    {read : List Bytes → Except String (β × List Bytes)} {received : π → β} {packets : List π}
    (hencode : ∀ p ∈ packets, encode p = .ok (bytes p))
    (hread : ∀ p ∈ packets, ∀ stream more, stream.flatten = bytes p ++ more →
      ∃ rest, read stream = .ok (received p, rest) ∧ rest.flatten = more)
    (hend : ∀ stream : List Bytes, stream.flatten = [] → read stream = .error "early eof") :
    ReadsBack encode read received packets := by
  refine ⟨packets.map bytes,mapM_ok hencode,fun stream hstream => ?_⟩
  have hbytes : stream.flatten = packets.flatMap bytes ++ [] := by
    rw [hstream, List.append_nil, List.flatMap_def]
  obtain ⟨rest,hmany,hrest⟩ := readMany_of_flatMap hread hbytes
  exact ⟨rest,hmany,hend rest hrest⟩

theorem ReadsBack.received_eq {encode : π → Except String Bytes}
    {read : List Bytes → Except String (β × List Bytes)} {received received' : π → β}
    {packets : List π} (h : ReadsBack encode read received packets)
    (h' : ReadsBack encode read received' packets) : packets.map received = packets.map received' := by
  obtain ⟨outputs,houtputs,hread⟩ := h
  obtain ⟨outputs',houtputs',hread'⟩ := h'
  cases houtputs.symm.trans houtputs'
  obtain ⟨rest,hmany,_⟩ := hread outputs rfl
  obtain ⟨rest',hmany',_⟩ := hread' outputs rfl
  rw [hmany, Except.ok.injEq, Prod.mk.injEq] at hmany'
  exact hmany'.1

/-- At the end of the stream no host is read. -/
theorem readHost_end (codes : AddressCodes) (unsupported : UInt8 → String) {stream : List Bytes}
    (h : stream.flatten = []) : readHost codes unsupported stream = .error "early eof" := by
  have hone : readOne stream = none := by
    cases hread : readOne stream with
    | none => rfl
    | some r =>
      have hcons := readOne_flatten hread
      rw [h] at hcons
      cases hcons
  rw [readHost, readU8, hone]

/-! ## AnyTLS -/

theorem uotPacket_ok {target : TargetAddress} {payload : Bytes} (h : Encodable target payload) :
    AnyTls.encodeUotPacket target payload =
      .ok ((Host.ofText target.host).bytes AnyTls.uotCodes ++ be16 target.port.toNat ++
        be16 payload.length ++ payload) := by
  rw [AnyTls.encodeUotPacket, if_neg (Nat.not_lt.mpr h.1), AnyTls.encodeUotAddress_ok h.2]
  rfl

theorem hostFits_of_ofText {text : String} (h : (Host.ofText text).Fits) : HostFits (utf8 text.toList) := by
  obtain ⟨octets,h₄,_⟩ | ⟨octets,h₆,_⟩ | hhost := ofText_cases text
  · exact .inl (by simp [h₄])
  · exact .inr (.inl (by simp [h₆]))
  · rw [hhost] at h
    exact .inr (.inr h)

theorem uotPacket_encodable {target : TargetAddress} {payload bytes : Bytes}
    (h : AnyTls.encodeUotPacket target payload = .ok bytes) : Encodable target payload := by
  rw [AnyTls.encodeUotPacket] at h
  split at h
  · cases h
  · next hshort =>
    cases haddress : AnyTls.encodeUotAddress target with
    | error err =>
      rw [haddress] at h
      cases h
    | ok address =>
      exact ⟨Nat.not_lt.mp hshort,hostFits_of_ofText (AnyTls.encodeUotAddress_bytes haddress).2⟩

theorem uotPacket_error_iff (target : TargetAddress) (payload : Bytes) :
    (∃ err, AnyTls.encodeUotPacket target payload = .error err) ↔ ¬ Encodable target payload := by
  constructor
  · intro h hfits
    obtain ⟨err,herr⟩ := h
    cases (uotPacket_ok hfits).symm.trans herr
  · intro hfits
    cases hencode : AnyTls.encodeUotPacket target payload with
    | error err => exact ⟨err,rfl⟩
    | ok bytes => exact absurd (uotPacket_encodable hencode) hfits

theorem anytls_readsBack {packets : List (TargetAddress × Bytes)}
    (h : ∀ p ∈ packets, Encodable p.1 p.2) :
    ReadsBack (fun p => AnyTls.encodeUotPacket p.1 p.2) AnyTls.readUotPacket
      (fun p => (canonicalTarget p.1, p.2)) packets := by
  refine readsBack_of_packets (fun p hp => uotPacket_ok (h p hp)) ?_ ?_
  · intro p hp stream more hstream
    obtain ⟨hpayload,hfits⟩ := h p hp
    simp only [List.append_assoc] at hstream
    exact @AnyTls.readUotPacket_endpoint ⟨Host.ofText p.1.host, p.1.port⟩ hfits.ofText_fits _
      (Nat.lt_succ_of_le hpayload) stream more hstream
  · intro stream hend
    rw [AnyTls.readUotPacket, AnyTls.readUotAddress, readHost_end _ _ hend]

/-! ## Shadowsocks -/

/-- A scope id has no place on the wire. -/
def withoutScope : Address → Address
  | .socketAddress (.v6 ip _ port) => .socketAddress (.v6 ip 0 port)
  | address => address

theorem addressOf_endpoint (address : Address) : addressOf address.endpoint = withoutScope address := by
  cases address with
  | socketAddress address => cases address <;> rfl
  | domainNameAddress host port => rfl

theorem targetAddress_fits {target : TargetAddress} (h : HostFits target.hostBytes) :
    (targetAddress target).endpoint.host.Fits := askedEndpoint_fits .shadowsocksUot h

theorem shadowsocks_readsBack {writeToBuf : Address → Bytes}
    {readCursor : Bytes → Option (Address × Bytes)} (hcrate : SocksAddresses writeToBuf readCursor)
    {packets : List (Address × Bytes)}
    (h : ∀ p ∈ packets, p.1.endpoint.host.Fits ∧ p.2.length ≤ 65535) :
    ReadsBack (fun p => encodeUotPacket writeToBuf p.1 p.2) readUotPacket
      (fun p => (withoutScope p.1, p.2)) packets := by
  have hencode : ∀ p ∈ packets, encodeUotPacket writeToBuf p.1 p.2 =
      .ok (socksBytes p.1.endpoint ++ be16 p.2.length ++ p.2) := by
    intro p hp
    rw [encodeUotPacket, if_neg (Nat.not_lt.mpr (h p hp).2), hcrate.writes p.1 (h p hp).1]
  refine readsBack_of_packets hencode ?_ ?_
  · intro p hp stream more hstream
    obtain ⟨hfits,hpayload⟩ := h p hp
    simp only [socksBytes, List.append_assoc] at hstream
    rw [← addressOf_endpoint]
    exact readUotPacket_endpoint hfits (Nat.lt_succ_of_le hpayload) hstream
  · intro stream hend
    rw [readUotPacket, readHost_end _ _ hend]

theorem encodeUotPacket_error_iff (writeToBuf : Address → Bytes) (address : Address) (payload : Bytes) :
    (∃ err, encodeUotPacket writeToBuf address payload = .error err) ↔ 65535 < payload.length := by
  unfold encodeUotPacket
  split
  · simp [*]
  · simp [*]

/-! ## Both -/

/-- Only IPv6 literals are spelled anew. -/
theorem canonicalTarget_eq {target : TargetAddress} (h : ∀ ip, Host.ofText target.host ≠ .ip (.v6 ip)) :
    canonicalTarget target = target := by
  have hhost : canonicalHost target.host = target.host := by
    obtain ⟨octets,h₄,hhost⟩ | ⟨octets,_,hhost⟩ | hhost := ofText_cases target.host
    · rw [canonicalHost, hhost, Host.text, IpAddr.text, ← utf8_injective (parseIpv4_spelled h₄),
        String.ofList_toList]
    · exact absurd hhost (h _)
    · rw [canonicalHost, hhost, Host.text]
  rw [canonicalTarget, hhost]

theorem uot_codecs {writeToBuf : Address → Bytes} {readCursor : Bytes → Option (Address × Bytes)}
    (hcrate : SocksAddresses writeToBuf readCursor) :
    (∀ packets : List (TargetAddress × Bytes), (∀ p ∈ packets, Encodable p.1 p.2) →
      ReadsBack (fun p => AnyTls.encodeUotPacket p.1 p.2) AnyTls.readUotPacket
        (fun p => (canonicalTarget p.1, p.2)) packets) ∧
    (∀ target, (∀ ip, Host.ofText target.host ≠ .ip (.v6 ip)) → canonicalTarget target = target) ∧
    (∀ target payload,
      (∃ err, AnyTls.encodeUotPacket target payload = .error err) ↔ ¬ Encodable target payload) ∧
    (∀ packets : List (Address × Bytes),
      (∀ p ∈ packets, p.1.endpoint.host.Fits ∧ p.2.length ≤ 65535) →
        ReadsBack (fun p => encodeUotPacket writeToBuf p.1 p.2) readUotPacket
          (fun p => (withoutScope p.1, p.2)) packets) ∧
    (∀ target, HostFits target.hostBytes → (targetAddress target).endpoint.host.Fits) ∧
    ∀ address payload, address.endpoint.host.Fits →
      ((∃ err, encodeUotPacket writeToBuf address payload = .error err) ↔ 65535 < payload.length) := by
  refine ⟨fun packets h => anytls_readsBack h,fun target h => canonicalTarget_eq h,uotPacket_error_iff,
    fun packets h => shadowsocks_readsBack hcrate h,fun target h => targetAddress_fits h,
    fun address payload _ => encodeUotPacket_error_iff writeToBuf address payload⟩

theorem uot_codecs_socks :
    ReadsBack (fun p => AnyTls.encodeUotPacket p.1 p.2) AnyTls.readUotPacket
        (fun p => (canonicalTarget p.1, p.2)) [(⟨"::0", 53⟩, [1]), (⟨"example", 53⟩, [])] ∧
      ReadsBack (fun p => encodeUotPacket writeSocks p.1 p.2) readUotPacket
        (fun p => (withoutScope p.1, p.2)) [(.domainNameAddress "example" 53, [2])] :=
  ⟨(uot_codecs socksAddresses).1 _ (by decide +kernel),
    (uot_codecs socksAddresses).2.2.2.1 _ (by decide +kernel)⟩

theorem not_readsBack_of_respelled {target : TargetAddress} (hfits : Encodable target [])
    (h : canonicalTarget target ≠ target) :
    ¬ ReadsBack (fun p => AnyTls.encodeUotPacket p.1 p.2) AnyTls.readUotPacket
      (fun p => p) [(target, [])] := by
  intro hread
  have hback : ReadsBack (fun p => AnyTls.encodeUotPacket p.1 p.2) AnyTls.readUotPacket
      (fun p => (canonicalTarget p.1, p.2)) [(target, [])] := anytls_readsBack (by simpa using hfits)
  have hsame : target = canonicalTarget target := by simpa using hread.received_eq hback
  exact h hsame.symm

theorem not_readsBack_of_scope {target : TargetAddress} (hfits : Encodable target [])
    (h : withoutScope (targetAddress target) ≠ targetAddress target) :
    ¬ ReadsBack (fun p => encodeUotPacket writeSocks p.1 p.2) readUotPacket
      (fun p => p) [(targetAddress target, [])] := by
  intro hread
  have haddress := targetAddress_fits hfits.2
  have hback : ReadsBack (fun p => encodeUotPacket writeSocks p.1 p.2) readUotPacket
      (fun p => (withoutScope p.1, p.2)) [(targetAddress target, [])] :=
    shadowsocks_readsBack socksAddresses (by simpa using haddress)
  have hsame : targetAddress target = withoutScope (targetAddress target) := by
    simpa using hread.received_eq hback
  exact h hsame.symm

/-- An IPv6 literal comes back in canonical text, and without its scope id. -/
theorem not_readsBack_respelled :
    (Encodable ⟨"::0", 53⟩ [] ∧
      ¬ ReadsBack (fun p => AnyTls.encodeUotPacket p.1 p.2) AnyTls.readUotPacket
        (fun p => p) [(⟨"::0", 53⟩, [])]) ∧
    Encodable ⟨"[fe80::1%3]", 53⟩ [] ∧
      ¬ ReadsBack (fun p => encodeUotPacket writeSocks p.1 p.2) readUotPacket
        (fun p => p) [(targetAddress ⟨"[fe80::1%3]", 53⟩, [])] := by
  have hanytls : Encodable ⟨"::0", 53⟩ [] := by decide +kernel
  have hsocks : Encodable ⟨"[fe80::1%3]", 53⟩ [] := by decide +kernel
  have hrespelled : canonicalTarget ⟨"::0", 53⟩ ≠ ⟨"::0", 53⟩ := by decide +kernel
  have hscope : withoutScope (targetAddress ⟨"[fe80::1%3]", 53⟩) ≠
      targetAddress ⟨"[fe80::1%3]", 53⟩ := by decide +kernel
  constructor
  · exact ⟨hanytls,not_readsBack_of_respelled hanytls hrespelled⟩
  · exact ⟨hsocks,not_readsBack_of_scope hsocks hscope⟩

end AtlasKernel.PacketSession
