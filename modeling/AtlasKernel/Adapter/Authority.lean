import AtlasKernel.Adapter.CacheKeys
import AtlasKernel.HttpProxy.Forward
import AtlasKernel.Lib.IpText
import AtlasKernel.Shadowsocks.UdpTarget

/-! Hosts and ports as one text, and what reads it: `Display for TargetAddress` with
`parse_host_port`, and the servers that the AnyTLS and Hysteria2 adapters dial with the
standard parser. Source: `session.rs`, `main.rs`, `adapter/anytls.rs`, `adapter/hysteria2.rs`. -/
namespace AtlasKernel.Adapter
open AtlasKernel.Lib AtlasKernel.Vless AtlasKernel.HttpProxy AtlasKernel.Shadowsocks

/-! ## Texts -/

/-- What `client_for` makes of the configuration: the resolved address is the server. -/
def AnyTlsConfig.resolved (config : AnyTlsConfig) (address : SocketAddr) : AnyTlsConfig :=
  { config with server := String.ofList address.ip.text }

/-- What `create_session` connects to. -/
def AnyTlsConfig.dialText (config : AnyTlsConfig) : String :=
  config.server ++ ":" ++ toString config.serverPort.toNat

def Hy2Config.resolved (config : Hy2Config) (address : SocketAddr) : Hy2Config :=
  { config with server := String.ofList address.ip.text }

/-- `server_addr` in `hysteria2_config` -/
def Hy2Config.serverAddr (config : Hy2Config) : String :=
  config.server ++ ":" ++ toString config.serverPort.toNat

/-- The standard parser takes the text for this address and this port. -/
def Dials (server : String) (ip : IpAddr) (port : UInt16) : Prop :=
  ∃ address, SocketAddr.parse (utf8 server.toList) = some address ∧ address.ip = ip ∧
    address.port = port

/-- Nothing stands between the closing bracket and the port. -/
def NothingLeftOver (value : Text) : Prop :=
  ∀ host rest : Text, value = '[' :: host ++ ']' :: rest → ']' ∉ host →
    rest = [] ∨ rest.head? = some ':'

/-! ## `parse_host_port` -/

theorem authority_toList (target : TargetAddress) :
    (authority target).toList = target.host.toList ++ ':' :: Nat.toDigits 10 target.port.toNat := by
  rw [authority, Nat.toString_eq_repr, String.toList_append, String.toList_append, Nat.toList_repr,
    List.append_assoc]
  rfl

theorem parsePort_digits (port : UInt16) : parsePort (Nat.toDigits 10 port.toNat) = .ok port := by
  have hport : port.toNat ≤ 65535 := Nat.le_of_lt_succ port.toNat_lt
  rw [parsePort, parseUnsigned_toDigits hport]
  simp

theorem stripPrefix_head_none {c : Char} {text : Text} (h : text.head? ≠ some c) :
    stripPrefix [c] text = none := by
  apply stripPrefix_none
  rintro ⟨rest,rfl⟩
  exact h rfl

/-- Without a bracket, the last colon ends the host. -/
theorem parseHostPort_authority {target : TargetAddress} (defaultPort : UInt16)
    (hbracket : target.host.toList.head? ≠ some '[') :
    parseHostPort (authority target).toList defaultPort =
      if ':' ∈ target.host.toList then .ok ⟨authority target, defaultPort⟩ else .ok target := by
  have hhead : (authority target).toList.head? ≠ some '[' := by
    rw [authority_toList]
    cases htext : target.host.toList with
    | nil => exact fun h => absurd (Option.some.inj h) (by decide)
    | cons c cs =>
      rw [htext] at hbracket
      exact hbracket
  have hsplit : rsplitOnce ':' (authority target).toList =
      some (target.host.toList, Nat.toDigits 10 target.port.toNat) := by
    rw [authority_toList]
    exact rsplitOnce_last (notMem_digits (by decide) _) _
  simp only [parseHostPort, stripPrefix_head_none hhead, hsplit, parsePort_digits,
    String.ofList_toList]
  rfl

/-- What stands in the brackets is the host. -/
theorem parseHostPort_inBrackets {host rest : Text} {defaultPort : UInt16} {target : TargetAddress}
    (hhost : ']' ∉ host)
    (h : parseHostPort ('[' :: (host ++ ']' :: rest)) defaultPort = .ok target) :
    target.host.toList = host := by
  have hstrip : stripPrefix ['['] ('[' :: (host ++ ']' :: rest)) = some (host ++ ']' :: rest) :=
    stripPrefix_append ['['] _
  simp only [parseHostPort, hstrip, splitOnce_first hhost] at h
  split at h
  · next port _ =>
    cases hport : parsePort port with
    | error e =>
      rw [hport] at h
      cases h
    | ok port =>
      rw [hport] at h
      cases h
      exact String.toList_ofList
  · cases h
    exact String.toList_ofList

/-- A host that begins with a bracket never comes back. -/
theorem parseHostPort_bracket {target : TargetAddress} (defaultPort : UInt16)
    (hbracket : target.host.toList.head? = some '[') :
    parseHostPort (authority target).toList defaultPort ≠ .ok target := by
  obtain ⟨cs,htext⟩ := List.head?_eq_some_iff.mp hbracket
  rw [authority_toList, htext, List.cons_append]
  intro h
  by_cases hclosed : ']' ∈ cs ++ ':' :: Nat.toDigits 10 target.port.toNat
  · obtain ⟨host,rest,heq,hhost⟩ := List.eq_append_cons_of_mem hclosed
    rw [heq] at h
    have hsame : host = '[' :: cs := (parseHostPort_inBrackets hhost h).symm.trans htext
    -- the closing bracket would be the first digit of the port
    have hdrop := congrArg (List.drop (cs.length + 1)) heq
    have hdigits : Nat.toDigits 10 target.port.toNat = ']' :: rest := by
      have hnone : cs.drop (cs.length + 1) = [] := List.drop_eq_nil_of_le (Nat.le_succ _)
      simpa [hsame, hnone, List.drop_append] using hdrop
    have hdigit : ']' ∉ Nat.toDigits 10 target.port.toNat := notMem_digits (by decide) _
    rw [hdigits] at hdigit
    exact hdigit List.mem_cons_self
  · have hstrip : stripPrefix ['['] ('[' :: (cs ++ ':' :: Nat.toDigits 10 target.port.toNat)) =
        some (cs ++ ':' :: Nat.toDigits 10 target.port.toNat) := stripPrefix_append ['['] _
    simp [parseHostPort, hstrip, splitOnce_none hclosed] at h

theorem parseHostPort_authority_iff (target : TargetAddress) (defaultPort : UInt16) :
    parseHostPort (authority target).toList defaultPort = .ok target ↔
      ':' ∉ target.host.toList ∧ target.host.toList.head? ≠ some '[' := by
  by_cases hbracket : target.host.toList.head? = some '['
  · exact iff_of_false (parseHostPort_bracket defaultPort hbracket) fun h => h.2 hbracket
  · rw [parseHostPort_authority defaultPort hbracket]
    by_cases hcolon : ':' ∈ target.host.toList
    · rw [if_pos hcolon]
      refine iff_of_false ?_ fun h => h.1 hcolon
      intro h
      have hhost := congrArg TargetAddress.host (Except.ok.inj h)
      have hlen := congrArg (fun text => text.toList.length) hhost
      simp [authority] at hlen
    · rw [if_neg hcolon]
      exact iff_of_true rfl ⟨hcolon,hbracket⟩

/-- What stands behind the bracket is passed over unless it begins with a colon. -/
theorem parseHostPort_leftOver {host rest : Text} (hhost : ']' ∉ host)
    (hrest : rest.head? ≠ some ':') (defaultPort : UInt16) :
    parseHostPort ('[' :: host ++ ']' :: rest) defaultPort =
      .ok ⟨String.ofList host, defaultPort⟩ := by
  have hstrip : stripPrefix ['['] ('[' :: host ++ ']' :: rest) = some (host ++ ']' :: rest) :=
    stripPrefix_append ['['] _
  simp only [parseHostPort, hstrip, splitOnce_first hhost, stripPrefix_head_none hrest]

theorem accepts_nothingLeftOver_iff (value : Text) (defaultPort : UInt16) :
    (∀ target, parseHostPort value defaultPort = .ok target → NothingLeftOver value) ↔
      NothingLeftOver value := by
  refine ⟨fun h => ?_,fun h _ _ => h⟩
  by_contra hleft
  simp only [NothingLeftOver, not_forall, not_or] at hleft
  obtain ⟨host,rest,rfl,hhost,hne,hcolon⟩ := hleft
  exact hne ((h _ (parseHostPort_leftOver hhost hcolon defaultPort) host rest rfl hhost).resolve_right
    hcolon)

/-! ## The servers that are dialled -/

theorem dials_iff (ip : IpAddr) (port : UInt16) :
    Dials (String.ofList ip.text ++ ":" ++ toString port.toNat) ip port ↔ ip.isIpv4 = true := by
  have htext : (String.ofList ip.text ++ ":" ++ toString port.toNat).toList =
      ip.text ++ ':' :: Nat.toDigits 10 port.toNat := by
    rw [Nat.toString_eq_repr, String.toList_append, String.toList_append, Nat.toList_repr,
      String.toList_ofList, List.append_assoc]
    rfl
  have hbytes : utf8 (String.ofList ip.text ++ ":" ++ toString port.toNat).toList =
      utf8 ip.text ++ 0x3a :: utf8 (Nat.toDigits 10 port.toNat) := by
    rw [htext, utf8_append]
    rfl
  rw [Dials, hbytes]
  cases ip with
  | v4 ip =>
    have hparse := SocketAddr.parse_ipv4 (parseIpv4_text ip) port
    exact iff_of_true ⟨_,hparse,rfl,rfl⟩ rfl
  | v6 ip =>
    refine iff_of_false ?_ Bool.false_ne_true
    rintro ⟨address,hparse,hip,-⟩
    have hhead : (utf8 ip.text ++ 0x3a :: utf8 (Nat.toDigits 10 port.toNat)).head? ≠ some 0x5b := by
      have hread := parseIpv6_text ip
      cases hutf8 : utf8 ip.text with
      | nil => exact fun h => absurd (Option.some.inj h) (by decide)
      | cons b bs =>
        intro h
        cases h
        rw [hutf8, parseIpv6_bracket] at hread
        cases hread
    have hv4 := SocketAddr.parse_noBracket hhead hparse
    rw [hip] at hv4
    cases hv4

/-! ## Both ways -/

/-- IPv4 hosts come back, IPv6 hosts never do. -/
theorem parseHostPort_ip_iff (ip : IpAddr) (port defaultPort : UInt16) :
    parseHostPort (authority ⟨String.ofList ip.text, port⟩).toList defaultPort =
      .ok ⟨String.ofList ip.text, port⟩ ↔ ip.isIpv4 = true := by
  rw [parseHostPort_authority_iff, String.toList_ofList]
  cases ip with
  | v4 ip =>
    refine iff_of_true ⟨fun h => ?_,fun h => ?_⟩ rfl
    · exact absurd (Ipv4Addr.mem_text h) (by decide)
    · exact absurd (Ipv4Addr.mem_text (List.mem_of_mem_head? h)) (by decide)
  | v6 ip => exact iff_of_false (fun h => h.1 ip.colon_mem_text) Bool.false_ne_true

/-- A target comes back if its host has no colon and no bracket in front, a server that is
dialled is understood if its address is IPv4, and a text is read to its end if nothing is left
over in it; in no other case. -/
theorem authority_text_survives_iff (target : TargetAddress) (defaultPort : UInt16)
    (anyTls : AnyTlsConfig) (hy2 : Hy2Config) (address : SocketAddr) (value : Text) :
    (parseHostPort (authority target).toList defaultPort = .ok target ↔
      ':' ∉ target.host.toList ∧ target.host.toList.head? ≠ some '[') ∧
    (Dials (anyTls.resolved address).dialText address.ip anyTls.serverPort ↔
      address.ip.isIpv4 = true) ∧
    (Dials (hy2.resolved address).serverAddr address.ip hy2.serverPort ↔
      address.ip.isIpv4 = true) ∧
    ((∀ target, parseHostPort value defaultPort = .ok target → NothingLeftOver value) ↔
      NothingLeftOver value) :=
  ⟨parseHostPort_authority_iff target defaultPort,dials_iff _ _,dials_iff _ _,
    accepts_nothingLeftOver_iff value defaultPort⟩

/-- `::1` comes back with the port in its name, its socket address is not understood, and what
stands between the bracket and the port is lost. -/
theorem authority_text_ipv6_lost :
    parseHostPort (authority ⟨"::1", 443⟩).toList 80 = .ok ⟨"::1:443", 80⟩ ∧
      SocketAddr.parse (utf8 "::1:443".toList) = none ∧
      parseHostPort "[::1]x:443".toList 80 = .ok ⟨"::1", 80⟩ := by
  decide +kernel

end AtlasKernel.Adapter
