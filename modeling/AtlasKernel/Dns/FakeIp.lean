import AtlasKernel.Dns.ProxyResolver

/-! Which addresses the resolver for proxy servers can return, and the ranges of addresses
that stand for other hosts. Source: `dns.rs`. -/
namespace AtlasKernel.Dns
open AtlasKernel.Lib AtlasKernel.Vless

/-- An address that is no endpoint of a proxy. -/
def Forbidden (config : KernelDnsConfig) (ip : IpAddr) : Prop :=
  (∃ cidr ∈ config.fakeIpCidrs, matchesCidr ip cidr.toList = true) ∨
    ip.isUnspecified = true ∨ ip.isBroadcast = true ∨ ip.isLinkLocal = true

/-- No call returns such an address, whatever has happened. -/
def NoFakeEndpoints (config : KernelDnsConfig) : Prop :=
  ∀ events, ∀ output ∈ (run (step config) .new events).2, ∀ a ∈ output.addresses,
    ¬ Forbidden config a.ip

/-- The only range of the list that counts. -/
def benchmarkCidr : String := "198.18.0.0/15"

/-- The listed ranges consist of addresses that are refused for another reason than that
they are listed: they are in the one range that counts, or of a kind that is never returned. -/
def RangesRefused (config : KernelDnsConfig) : Prop :=
  ∀ cidr ∈ config.fakeIpCidrs, ∀ ip, matchesCidr ip cidr.toList = true →
    (benchmarkCidr ∈ config.fakeIpCidrs ∧ matchesCidr ip benchmarkCidr.toList = true) ∨
      ip.isUnspecified = true ∨ ip.isBroadcast = true ∨ ip.isLinkLocal = true ∨ ip.isIpv4Mapped = true

/-- The range the filter looks for, as a CIDR. -/
theorem matchesCidr_benchmark (ip : Ipv4Addr) :
    matchesCidr (.v4 ip) "198.18.0.0/15".toList = true ↔
      byteAt ip.octets 0 = 198 ∧ (byteAt ip.octets 1 = 18 ∨ byteAt ip.octets 1 = 19) := by
  have hsplit : splitOnce '/' "198.18.0.0/15".toList = some ("198.18.0.0".toList, "15".toList) := by decide
  have hlength : parseUnsigned 255 "15".toList = some 15 := by decide
  have hbase : IpAddr.parse (utf8 "198.18.0.0".toList) = some (.v4 ⟨[198, 18, 0, 0], rfl⟩) := by
    decide +kernel
  have hvalue : (Ipv4Addr.toU32 ⟨[198, 18, 0, 0], rfl⟩).toNat = 3323068416 := by decide
  have ha := (byteAt ip.octets 0).toNat_lt
  have hb := (byteAt ip.octets 1).toNat_lt
  have hc := (byteAt ip.octets 2).toNat_lt
  have hd := (byteAt ip.octets 3).toNat_lt
  rw [matchesCidr, hsplit]
  simp only [hlength, hbase, Bool.and_eq_true, decide_eq_true_eq]
  rw [sameNetwork_iff, hvalue, Ipv4Addr.toU32_toNat]
  simp only [← UInt8.toNat_inj]
  have hconst : (198 : UInt8).toNat = 198 ∧ (18 : UInt8).toNat = 18 ∧ (19 : UInt8).toNat = 19 := by decide
  rw [hconst.1, hconst.2.1, hconst.2.2]
  omega

theorem matchesCidr_benchmark_v6 (ip : Ipv6Addr) :
    matchesCidr (.v6 ip) benchmarkCidr.toList = false := by
  have hsplit : splitOnce '/' benchmarkCidr.toList = some ("198.18.0.0".toList, "15".toList) := by decide
  have hlength : parseUnsigned 255 "15".toList = some 15 := by decide
  have hbase : IpAddr.parse (utf8 "198.18.0.0".toList) = some (.v4 ⟨[198, 18, 0, 0], rfl⟩) := by
    decide +kernel
  rw [matchesCidr, hsplit]
  simp only [hlength, hbase]

/-- What passes the filter. -/
theorem isUsableIp_iff (config : KernelDnsConfig) (ip : IpAddr) :
    isUsableIp config ip = true ↔
      ¬ (benchmarkCidr ∈ config.fakeIpCidrs ∧ matchesCidr ip benchmarkCidr.toList = true) ∧
        ip.isUnspecified = false ∧ ip.isBroadcast = false ∧ ip.isLinkLocal = false := by
  cases ip with
  | v6 ip =>
    rw [matchesCidr_benchmark_v6]
    simp [isUsableIp, isUsableIpv6, IpAddr.isUnspecified, IpAddr.isBroadcast, IpAddr.isLinkLocal]
  | v4 ip =>
    rw [benchmarkCidr, matchesCidr_benchmark]
    simp only [isUsableIp, isUsableIpv4, IpAddr.isUnspecified, IpAddr.isBroadcast, IpAddr.isLinkLocal]
    by_cases hkind : (ip.isUnspecified || ip.isLinkLocal || ip.isBroadcast) = true
    · rw [if_pos hkind]
      refine iff_of_false Bool.false_ne_true ?_
      rintro ⟨-,hunspecified,hbroadcast,hlocal⟩
      rw [hunspecified, hbroadcast, hlocal] at hkind
      exact Bool.false_ne_true hkind
    · rw [if_neg hkind]
      rw [Bool.not_eq_true, Bool.or_eq_false_iff, Bool.or_eq_false_iff] at hkind
      simp only [hkind.1.1, hkind.1.2, hkind.2, and_self, and_true]
      have hoctets : ∀ cidr : String, (cidr = "198.18.0.0/15" && byteAt ip.octets 0 = 198 &&
          (byteAt ip.octets 1 = 18 || byteAt ip.octets 1 = 19)) = true ↔ cidr = "198.18.0.0/15" ∧
            byteAt ip.octets 0 = 198 ∧ (byteAt ip.octets 1 = 18 ∨ byteAt ip.octets 1 = 19) := by
        simp [and_assoc]
      rw [Bool.not_eq_true', List.any_eq_false]
      constructor
      · rintro hnone ⟨hlisted,hmatch⟩
        exact hnone _ hlisted ((hoctets _).mpr ⟨rfl,hmatch⟩)
      · intro hnot cidr hcidr htest
        obtain ⟨rfl,hmatch⟩ := (hoctets cidr).mp htest
        exact hnot ⟨hcidr,hmatch⟩

theorem normalizeIp_notMapped (ip : IpAddr) : (normalizeIp ip).isIpv4Mapped = false := by
  cases ip with
  | v4 ip => rfl
  | v6 ip =>
    rw [normalizeIp]
    cases hmapped : ip.toIpv4Mapped with
    | some ip => rfl
    | none => simp [IpAddr.isIpv4Mapped, hmapped]

theorem normalizeIp_of_notMapped {ip : IpAddr} (h : ip.isIpv4Mapped = false) : normalizeIp ip = ip := by
  cases ip with
  | v4 ip => rfl
  | v6 ip =>
    rw [IpAddr.isIpv4Mapped, Option.isSome_eq_false_iff, Option.isNone_iff_eq_none] at h
    rw [normalizeIp, h]

/-- Every address that is returned has passed the filter, from whichever source. -/
theorem returned_usable (config : KernelDnsConfig) (events : List Event) :
    ∀ output ∈ (run (step config) .new events).2, ∀ a ∈ output.addresses,
      isUsableIp config a.ip = true ∧ a.ip.isIpv4Mapped = false := by
  have hmeets : Meets (step config) (AnswersMeet fun _ _ => True) .new events :=
    meets_of_forall (fun event _ s => by cases event <;> simp [AnswersMeet]) _
  intro output houtput
  have hupstream : ∀ {upstream target lookup addresses},
      resolveUpstream config upstream target = .ok (lookup, addresses) →
        ∀ a ∈ addresses, isUsableIp config a.ip = true ∧ a.ip.isIpv4Mapped = false := by
    intro upstream target lookup addresses hok a ha
    obtain ⟨husable,-,ip,-,hip⟩ := (resolveUpstream_ok hok).2 a ha
    exact ⟨husable,hip ▸ normalizeIp_notMapped ip⟩
  have hexplained := run_explained config events hmeets output houtput
  cases output with
  | failed target error => simp [Output.addresses]
  | known target addresses =>
    intro a ha
    obtain ⟨husable,ip,hip⟩ := resolveLocally_ok hexplained a ha
    exact ⟨husable,hip ▸ normalizeIp_notMapped ip⟩
  | stored target upstream addresses now =>
    obtain ⟨-,lookup,hok⟩ := hexplained
    exact hupstream hok
  | hit target addresses now =>
    obtain ⟨asked,upstream,lookup,storedAt,-,-,-,hok,-⟩ := hexplained
    exact hupstream hok

/-! ## What can be returned -/

theorem parse_letter (text : Bytes) : IpAddr.parse (0x78 :: text) = none := by
  have hv4 : readIpv4Addr (0x78 :: text) = none := rfl
  have hv6 : Ipv6Addr.parse (0x78 :: text) = none := Ipv6Addr.parse_none rfl
  rw [IpAddr.parse]
  split
  · next hsome => cases hv4.symm.trans hsome
  · rfl
  · rw [hv6]
    rfl

theorem exists_long (entries : List KernelHostMapping) :
    ∃ n, ∀ entry ∈ entries, entry.hostname.toLower.length < n := by
  induction entries with
  | nil => exact ⟨0,by simp⟩
  | cons entry entries ih =>
    obtain ⟨n,hn⟩ := ih
    refine ⟨max n (entry.hostname.toLower.length + 1),List.forall_mem_cons.mpr ⟨?_,?_⟩⟩
    · omega
    · intro other hother
      have hlt := hn other hother
      omega

/-- A name that is neither an address nor in the hosts table. -/
theorem exists_unmapped_host (config : KernelDnsConfig) (port : UInt16) :
    ∃ host : String, resolveLocally config ⟨host, port⟩ = none := by
  obtain ⟨n,hn⟩ := exists_long config.hosts
  refine ⟨String.ofList ('x' :: List.replicate n 'x'),?_⟩
  have hparse : IpAddr.parse (utf8 (String.ofList ('x' :: List.replicate n 'x')).toList) = none := by
    rw [String.toList_ofList]
    exact parse_letter _
  have hfind : (config.hosts.find? fun entry => entry.hostname.toLower =
      (String.ofList ('x' :: List.replicate n 'x')).toLower) = none := by
    rw [List.find?_eq_none]
    intro entry hentry heq
    have hlen := hn entry hentry
    have hlong : (String.ofList ('x' :: List.replicate n 'x')).toLower.length = n + 1 := by
      rw [length_toLower, String.length_ofList, List.length_cons,
        List.length_replicate]
    rw [of_decide_eq_true heq] at hlen
    omega
  rw [resolveLocally, hparse]
  dsimp only
  rw [hfind]
  rfl

theorem lookupEndpoints_down {upstream : Upstream} (h : ∀ url, upstream.doh url = none) (host : String)
    (e : DohError) (endpoints : List String) :
    ∃ e', lookupEndpoints upstream host e endpoints = .error e' := by
  induction endpoints generalizing e with
  | nil => exact ⟨e,rfl⟩
  | cons endpoint endpoints ih =>
    rw [lookupEndpoints, lookupDohEndpoint, h]
    exact ih _

/-- Whatever passes the filter is returned when the system says so. -/
theorem usable_returned {config : KernelDnsConfig} {ip : IpAddr} (husable : isUsableIp config ip = true)
    (hmapped : ip.isIpv4Mapped = false) :
    ∃ events, ∃ output ∈ (run (step config) .new events).2, ∃ a ∈ output.addresses, a.ip = ip := by
  obtain ⟨host,hhost⟩ := exists_unmapped_host config 443
  let upstream : Upstream := ⟨fun _ => none, fun _ => some [ip]⟩
  have hok : resolveUpstream config upstream ⟨host, 443⟩ =
      .ok (⟨[ip], dnsCacheTtl, "system-dns"⟩, [SocketAddr.new ip 443]) := by
    obtain ⟨e,he⟩ := @lookupEndpoints_down upstream (fun _ => rfl) host .noEndpoints (bootstrapEndpoints config)
    have hsystem : lookupSystem upstream host = .ok ⟨[ip], dnsCacheTtl, "system-dns"⟩ := by
      simp [lookupSystem, upstream]
    rw [resolveUpstream, lookupBootstrap, he]
    dsimp only
    rw [hsystem]
    simp [bind, Except.bind, normalizeIp_of_notMapped hmapped, husable, sortAddresses]
  refine ⟨[.resolve ⟨host, 443⟩ 0, .answered 0 upstream 0],
    .stored ⟨host, 443⟩ upstream [SocketAddr.new ip 443] 0,?_,SocketAddr.new ip 443,?_,SocketAddr.ip_new ip 443⟩
  · simp [run, step, hhost, ProxyServerResolver.new, hok]
  · exact List.mem_singleton.mpr rfl

/-- No fake address is ever returned exactly if the listed ranges are refused anyway. -/
theorem no_fake_endpoints_iff (config : KernelDnsConfig) : NoFakeEndpoints config ↔ RangesRefused config := by
  constructor
  · intro h cidr hcidr ip hmatch
    by_contra hother
    simp only [not_or, Bool.not_eq_true] at hother
    obtain ⟨hrange,hunspecified,hbroadcast,hlocal,hmapped⟩ := hother
    have husable := (isUsableIp_iff config ip).mpr ⟨hrange,hunspecified,hbroadcast,hlocal⟩
    obtain ⟨events,output,houtput,a,ha,rfl⟩ := usable_returned husable hmapped
    exact h events output houtput a ha (.inl ⟨cidr,hcidr,hmatch⟩)
  · intro h events output houtput a ha hforbidden
    obtain ⟨husable,hmapped⟩ := returned_usable config events output houtput a ha
    obtain ⟨hrange,hunspecified,hbroadcast,hlocal⟩ := (isUsableIp_iff config a.ip).mp husable
    rcases hforbidden with ⟨cidr,hcidr,hmatch⟩ | hkind
    · rcases h cidr hcidr a.ip hmatch with hlisted | hkind
      · exact hrange hlisted
      · simp [hunspecified, hbroadcast, hlocal, hmapped] at hkind
    · simp [hunspecified, hbroadcast, hlocal] at hkind

/-- The one range that counts may be listed alone, as it is by default. -/
theorem rangesRefused_benchmark {config : KernelDnsConfig}
    (h : ∀ cidr ∈ config.fakeIpCidrs, cidr = benchmarkCidr) : RangesRefused config := by
  intro cidr hcidr ip hmatch
  obtain rfl := h cidr hcidr
  exact .inl ⟨hcidr,hmatch⟩

def otherRange : KernelDnsConfig := { proxyBootstrapNameservers := [], fakeIpCidrs := ["28.0.0.0/8"] }

/-- With another range in the list a literal from it is returned. -/
theorem listed_range_is_returned : ¬ ∀ config, NoFakeEndpoints config := by
  intro h
  have hparse : IpAddr.parse (utf8 "28.0.0.1".toList) = some (.v4 ⟨[28, 0, 0, 1], rfl⟩) := by
    decide +kernel
  have husable : isUsableIp otherRange (.v4 ⟨[28, 0, 0, 1], rfl⟩) = true := by decide
  have hlocal : resolveLocally otherRange ⟨"28.0.0.1", 443⟩ =
      some (.ok [.v4 ⟨[28, 0, 0, 1], rfl⟩ 443]) := by
    rw [resolveLocally, hparse]
    simp only [normalizeIp, husable, if_true]
    rfl
  have hreturned : .known ⟨"28.0.0.1", 443⟩ [.v4 ⟨[28, 0, 0, 1], rfl⟩ 443] ∈
      (run (step otherRange) .new [.resolve ⟨"28.0.0.1", 443⟩ 0]).2 := by
    simp [run, step, hlocal]
  exact h otherRange _ _ hreturned _ (List.mem_singleton.mpr rfl)
    (.inl ⟨"28.0.0.0/8",List.mem_singleton.mpr rfl,by decide +kernel⟩)

end AtlasKernel.Dns
