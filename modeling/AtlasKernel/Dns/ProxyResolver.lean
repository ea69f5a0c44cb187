import AtlasKernel.Lib.SocketAddr
import AtlasKernel.Lib.Steps
import AtlasKernel.Vless.Xudp
import Mathlib.Logic.Function.Basic

/-! The resolver for the hosts of proxy servers, with its cache. A call that finds nothing
waits for an upstream, and others run meanwhile. Source: `dns.rs`. -/
namespace AtlasKernel.Dns
open AtlasKernel.Lib AtlasKernel.Vless

structure KernelHostMapping where
  hostname : String
  address : String
deriving DecidableEq, Repr

structure KernelDnsConfig where
  hosts : List KernelHostMapping := []
  preferIpv6 : Bool := false
  proxyBootstrapNameservers : List String
  fakeIpCidrs : List String
deriving DecidableEq, Repr

/-- `Duration::from_secs`; durations and instants are in nanoseconds. -/
def fromSecs (secs : Nat) : Nat := 1000000000 * secs

def dnsCacheTtl : Nat := fromSecs 300
def minProxyTtl : Nat := fromSecs 30
def maxProxyTtl : Nat := fromSecs 3600

def normalizeTtl (value : Nat) : Nat := min (max (fromSecs value) minProxyTtl) maxProxyTtl

/-! ## Addresses -/

def normalizeIp (ip : IpAddr) : IpAddr :=
  match ip with
  | .v6 ip =>
    match ip.toIpv4Mapped with
    | some ip => .v4 ip
    | none => .v6 ip
  | other => other

def isUsableIpv4 (ip : Ipv4Addr) (fakeIpCidrs : List String) : Bool :=
  let octet := byteAt ip.octets
  if ip.isUnspecified || ip.isLinkLocal || ip.isBroadcast then false
  else !fakeIpCidrs.any fun cidr =>
    cidr = "198.18.0.0/15" && octet 0 = 198 && (octet 1 = 18 || octet 1 = 19)

def isUsableIpv6 (ip : Ipv6Addr) : Bool := !(ip.isUnspecified || ip.isUnicastLinkLocal)

def isUsableIp (config : KernelDnsConfig) (ip : IpAddr) : Bool :=
  match ip with
  | .v4 ip => isUsableIpv4 ip config.fakeIpCidrs
  | .v6 ip => isUsableIpv6 ip

def sortKey (preferIpv6 : Bool) (address : SocketAddr) : Nat :=
  if preferIpv6 then if address.ip.isIpv6 then 0 else 1
  else if address.ip.isIpv4 then 0 else 1

/-- The sort is stable. -/
def sortAddresses (addresses : List SocketAddr) (preferIpv6 : Bool) : List SocketAddr :=
  addresses.mergeSort fun a b => sortKey preferIpv6 a ≤ sortKey preferIpv6 b

/-! ## Lookups -/

structure DohAnswer where
  recordType : Nat
  ttl : Option Nat
  data : String
deriving DecidableEq, Repr

/-- What the upstreams say: the answers of a DoH server to a request that succeeds, by its
URL, and the addresses of the system. -/
structure Upstream where
  doh : String → Option (Option (List DohAnswer))
  system : String → Option (List IpAddr)

structure BootstrapLookup where
  addresses : List IpAddr
  ttl : Nat
  source : String
deriving DecidableEq, Repr

/-- The errors with what their texts show. -/
inductive ResolveError where
  | blockedAddress (ip : IpAddr)
  | invalidMapping
  | blockedMapping (ip : IpAddr)
  | systemLookup
  | systemNoRecords
  | noUsableAddress (host : String)
deriving DecidableEq, Repr

inductive DohError where
  | request
  | noARecords (endpoint : String)
  | noEndpoints
deriving DecidableEq, Repr

/-- The addresses of the A records, and `ttl` as the closure leaves it. -/
def collectAnswers (ttl : Nat) : List DohAnswer → List IpAddr × Nat
  | [] => ([], ttl)
  | answer :: answers =>
    if answer.recordType ≠ 1 then collectAnswers ttl answers
    else
      let rest := collectAnswers (answer.ttl.elim ttl normalizeTtl) answers
      match IpAddr.parse (utf8 answer.data.toList) with
      | some ip => (ip :: rest.1, rest.2)
      | none => rest

def trimEndpoint (endpoint : String) : String := String.ofList (trimEndMatches '/' endpoint.toList)

def dohUrl (endpoint host : String) : String := trimEndpoint endpoint ++ "?name=" ++ host ++ "&type=A"

def lookupDohEndpoint (upstream : Upstream) (endpoint host : String) :
    Except DohError BootstrapLookup :=
  match upstream.doh (dohUrl endpoint host) with
  | none => .error .request
  | some answer =>
    let (addresses, ttl) := collectAnswers dnsCacheTtl (answer.getD [])
    if addresses = [] then .error (.noARecords (trimEndpoint endpoint))
    else .ok ⟨addresses, ttl, trimEndpoint endpoint⟩

def bootstrapEndpoints (config : KernelDnsConfig) : List String :=
  if config.proxyBootstrapNameservers = [] then
    ["https://1.1.1.1/dns-query", "https://1.0.0.1/dns-query", "https://8.8.8.8/resolve"]
  else config.proxyBootstrapNameservers

def lookupEndpoints (upstream : Upstream) (host : String) (lastError : DohError) :
    List String → Except DohError BootstrapLookup
  | [] => .error lastError
  | endpoint :: endpoints =>
    match lookupDohEndpoint upstream endpoint host with
    | .ok lookup => .ok lookup
    | .error e => lookupEndpoints upstream host e endpoints

def lookupBootstrap (config : KernelDnsConfig) (upstream : Upstream) (host : String) :
    Except DohError BootstrapLookup :=
  lookupEndpoints upstream host .noEndpoints (bootstrapEndpoints config)

def lookupSystem (upstream : Upstream) (host : String) : Except ResolveError BootstrapLookup :=
  match upstream.system host with
  | none => .error .systemLookup
  | some addresses =>
    if addresses = [] then .error .systemNoRecords else .ok ⟨addresses, dnsCacheTtl, "system-dns"⟩

/-! ## The resolver -/

structure ProxyDnsCacheEntry where
  expiresAt : Nat
  addresses : List SocketAddr
  source : String
deriving DecidableEq, Repr

/-- The first half of `resolve`: a literal or an entry of the hosts table. -/
def resolveLocally (config : KernelDnsConfig) (target : TargetAddress) :
    Option (Except ResolveError (List SocketAddr)) :=
  match IpAddr.parse (utf8 target.host.toList) with
  | some ip =>
    let ip := normalizeIp ip
    some (if isUsableIp config ip then .ok [SocketAddr.new ip target.port]
      else .error (.blockedAddress ip))
  | none =>
    (config.hosts.find? fun entry => entry.hostname.toLower = target.host.toLower).map fun mapped =>
      match IpAddr.parse (utf8 mapped.address.toList) with
      | none => .error .invalidMapping
      | some ip =>
        let ip := normalizeIp ip
        if isUsableIp config ip then .ok [SocketAddr.new ip target.port]
        else .error (.blockedMapping ip)

def cacheKey (target : TargetAddress) : String :=
  target.host.toLower ++ ":" ++ toString target.port.toNat

/-- The second half: what an upstream says, as it is returned and cached. -/
def resolveUpstream (config : KernelDnsConfig) (upstream : Upstream) (target : TargetAddress) :
    Except ResolveError (BootstrapLookup × List SocketAddr) := do
  let lookup ← match lookupBootstrap config upstream target.host with
    | .ok lookup => .ok lookup
    | .error _ => lookupSystem upstream target.host
  let usable := (lookup.addresses.map normalizeIp).filter fun ip => isUsableIp config ip
  let addresses := sortAddresses (usable.map (SocketAddr.new · target.port)) config.preferIpv6
  if addresses = [] then .error (.noUsableAddress target.host) else .ok (lookup, addresses)

/-- The cache, and the calls that wait for an upstream. -/
structure ProxyServerResolver where
  cache : String → Option ProxyDnsCacheEntry
  lookups : List TargetAddress

def ProxyServerResolver.new : ProxyServerResolver := ⟨fun _ => none, []⟩

inductive Event where
  | resolve (target : TargetAddress) (now : Nat)
  | answered (call : Nat) (upstream : Upstream) (now : Nat)

/-- What calls return. -/
inductive Output where
  | known (target : TargetAddress) (addresses : List SocketAddr)
  | hit (target : TargetAddress) (addresses : List SocketAddr) (now : Nat)
  | stored (target : TargetAddress) (upstream : Upstream) (addresses : List SocketAddr) (now : Nat)
  | failed (target : TargetAddress) (error : ResolveError)

def Output.addresses : Output → List SocketAddr
  | .known _ addresses => addresses
  | .hit _ addresses _ => addresses
  | .stored _ _ addresses _ => addresses
  | .failed _ _ => []

def step (config : KernelDnsConfig) (s : ProxyServerResolver) (event : Event) :
    ProxyServerResolver × List Output :=
  match event with
  | .resolve target now =>
    match resolveLocally config target with
    | some (.ok addresses) => (s, [.known target addresses])
    | some (.error e) => (s, [.failed target e])
    | none =>
      let waiting := ({ s with lookups := s.lookups ++ [target] }, [])
      match s.cache (cacheKey target) with
      | some entry => if now < entry.expiresAt then (s, [.hit target entry.addresses now]) else waiting
      | none => waiting
  | .answered call upstream now =>
    match s.lookups[call]? with
    | none => (s, [])
    | some target =>
      let s := { s with lookups := s.lookups.eraseIdx call }
      match resolveUpstream config upstream target with
      | .error e => (s, [.failed target e])
      | .ok (lookup, addresses) =>
        let entry := ⟨now + lookup.ttl, addresses, lookup.source⟩
        ({ s with cache := Function.update s.cache (cacheKey target) (some entry) },
          [.stored target upstream addresses now])

/-! ## What a call can return -/

theorem isUsable_normalized {config : KernelDnsConfig} {ip : IpAddr} {target : TargetAddress}
    {e : ResolveError} {addresses : List SocketAddr}
    (h : (if isUsableIp config (normalizeIp ip) then .ok [SocketAddr.new (normalizeIp ip) target.port]
      else Except.error e) = .ok addresses) :
    ∀ a ∈ addresses, isUsableIp config a.ip = true ∧ ∃ ip, a.ip = normalizeIp ip := by
  split_ifs at h with husable
  obtain rfl := Except.ok.inj h
  intro a ha
  rw [List.mem_singleton.mp ha, SocketAddr.ip_new]
  exact ⟨husable,ip,rfl⟩

theorem resolveLocally_ok {config : KernelDnsConfig} {target : TargetAddress}
    {addresses : List SocketAddr} (h : resolveLocally config target = some (.ok addresses)) :
    ∀ a ∈ addresses, isUsableIp config a.ip = true ∧ ∃ ip, a.ip = normalizeIp ip := by
  rw [resolveLocally] at h
  split at h
  · exact isUsable_normalized (Option.some.inj h)
  · obtain ⟨mapped,-,hmapped⟩ := Option.map_eq_some_iff.mp h
    split at hmapped
    · cases hmapped
    · exact isUsable_normalized hmapped

/-- What is returned is what an upstream gave, without what is not usable. -/
theorem resolveUpstream_ok {config : KernelDnsConfig} {upstream : Upstream} {target : TargetAddress}
    {lookup : BootstrapLookup} {addresses : List SocketAddr}
    (h : resolveUpstream config upstream target = .ok (lookup, addresses)) :
    (lookupBootstrap config upstream target.host = .ok lookup ∨
      lookupSystem upstream target.host = .ok lookup) ∧
    ∀ a ∈ addresses, isUsableIp config a.ip = true ∧ a.port = target.port ∧
      ∃ ip ∈ lookup.addresses, a.ip = normalizeIp ip := by
  have hreturned : ∀ found : BootstrapLookup, ∀ a ∈ sortAddresses (((found.addresses.map normalizeIp).filter
      fun ip => isUsableIp config ip).map (SocketAddr.new · target.port)) config.preferIpv6,
      isUsableIp config a.ip = true ∧ a.port = target.port ∧
        ∃ ip ∈ found.addresses, a.ip = normalizeIp ip := by
    intro found a ha
    rw [sortAddresses, List.mem_mergeSort] at ha
    obtain ⟨ip,hip,rfl⟩ := List.mem_map.mp ha
    obtain ⟨hmem,husable⟩ := List.mem_filter.mp hip
    obtain ⟨raw,hraw,rfl⟩ := List.mem_map.mp hmem
    rw [SocketAddr.ip_new, SocketAddr.port_new]
    exact ⟨husable,rfl,raw,hraw,rfl⟩
  rw [resolveUpstream] at h
  cases hboot : lookupBootstrap config upstream target.host with
  | ok found =>
    simp only [hboot, bind, Except.bind] at h
    split_ifs at h
    obtain ⟨rfl,rfl⟩ := Prod.mk.inj (Except.ok.inj h)
    exact ⟨.inl rfl,hreturned found⟩
  | error e =>
    simp only [hboot, bind, Except.bind] at h
    cases hsystem : lookupSystem upstream target.host with
    | error e =>
      rw [hsystem] at h
      cases h
    | ok found =>
      rw [hsystem] at h
      dsimp only at h
      split_ifs at h
      obtain ⟨rfl,rfl⟩ := Prod.mk.inj (Except.ok.inj h)
      exact ⟨.inr rfl,hreturned found⟩

/-- The upstream meets `Q` for the call it answers. -/
def AnswersMeet (Q : TargetAddress → Upstream → Prop) (s : ProxyServerResolver) : Event → Prop
  | .resolve _ _ => True
  | .answered call upstream _ => ∀ target ∈ s.lookups[call]?, Q target upstream

/-- Where the addresses of an output come from. -/
def Output.Explained (config : KernelDnsConfig) (Q : TargetAddress → Upstream → Prop)
    (log : List Output) : Output → Prop
  | .known target addresses => resolveLocally config target = some (.ok addresses)
  | .stored target upstream addresses _ =>
    Q target upstream ∧ ∃ lookup, resolveUpstream config upstream target = .ok (lookup, addresses)
  | .hit target addresses now => ∃ asked upstream lookup storedAt,
    .stored asked upstream addresses storedAt ∈ log ∧ Q asked upstream ∧
      cacheKey asked = cacheKey target ∧
      resolveUpstream config upstream asked = .ok (lookup, addresses) ∧ now < storedAt + lookup.ttl
  | .failed _ _ => True

theorem Output.Explained.mono {config : KernelDnsConfig} {Q : TargetAddress → Upstream → Prop}
    {log : List Output} {output : Output} (h : output.Explained config Q log) (more : List Output) :
    output.Explained config Q (log ++ more) := by
  cases output with
  | hit target addresses now =>
    obtain ⟨asked,upstream,lookup,storedAt,hmem,hrest⟩ := h
    exact ⟨asked,upstream,lookup,storedAt,List.mem_append_left _ hmem,hrest⟩
  | known target addresses => exact h
  | stored target upstream addresses now => exact h
  | failed target error => trivial

/-- Every entry of the cache has been stored by a call under the same key. -/
def CacheExplained (config : KernelDnsConfig) (Q : TargetAddress → Upstream → Prop)
    (s : ProxyServerResolver) (log : List Output) : Prop :=
  ∀ key entry, s.cache key = some entry → ∃ asked upstream lookup storedAt,
    .stored asked upstream entry.addresses storedAt ∈ log ∧ Q asked upstream ∧ cacheKey asked = key ∧
      resolveUpstream config upstream asked = .ok (lookup, entry.addresses) ∧
      entry.expiresAt = storedAt + lookup.ttl

theorem CacheExplained.mono {config : KernelDnsConfig} {Q : TargetAddress → Upstream → Prop}
    {s : ProxyServerResolver} {log : List Output} (h : CacheExplained config Q s log)
    (more : List Output) : CacheExplained config Q s (log ++ more) := by
  intro key entry hentry
  obtain ⟨asked,upstream,lookup,storedAt,hmem,hrest⟩ := h key entry hentry
  exact ⟨asked,upstream,lookup,storedAt,List.mem_append_left _ hmem,hrest⟩

/-- Every output of a step is explained, and so is the cache it leaves. -/
theorem step_explained {config : KernelDnsConfig} {Q : TargetAddress → Upstream → Prop}
    {s : ProxyServerResolver} {log : List Output} (h : CacheExplained config Q s log) {event : Event}
    (hmeet : AnswersMeet Q s event) :
    CacheExplained config Q (step config s event).1 (log ++ (step config s event).2) ∧
      ∀ output ∈ (step config s event).2, output.Explained config Q log := by
  cases event with
  | resolve target now =>
    rw [step]
    dsimp only
    split
    · next addresses hlocal => exact ⟨h.mono _,by simpa [Output.Explained] using hlocal⟩
    · exact ⟨h.mono _,by simp [Output.Explained]⟩
    · split
      · next entry hentry =>
        split_ifs with hfresh
        · refine ⟨h.mono _,fun output houtput => ?_⟩
          obtain rfl := List.mem_singleton.mp houtput
          obtain ⟨asked,upstream,lookup,storedAt,hmem,hq,hkey,hok,hexpires⟩ := h _ _ hentry
          rw [hexpires] at hfresh
          exact ⟨asked,upstream,lookup,storedAt,hmem,hq,hkey,hok,hfresh⟩
        · exact ⟨h.mono _,by simp⟩
      · exact ⟨h.mono _,by simp⟩
  | answered call upstream now =>
    rw [step]
    dsimp only
    split
    · exact ⟨h.mono _,by simp⟩
    · next target htarget =>
      split
      · exact ⟨h.mono _,by simp [Output.Explained]⟩
      · next lookup addresses hok =>
        have hq : Q target upstream := hmeet target htarget
        refine ⟨?_,fun output houtput => ?_⟩
        · intro key entry hentry
          dsimp only at hentry
          by_cases hkey : key = cacheKey target
          · subst hkey
            rw [Function.update_self] at hentry
            obtain rfl := Option.some.inj hentry
            exact ⟨target,upstream,lookup,now,by simp,hq,rfl,hok,rfl⟩
          · rw [Function.update_of_ne hkey] at hentry
            exact h.mono _ key entry hentry
        · obtain rfl := List.mem_singleton.mp houtput
          exact ⟨hq,lookup,hok⟩

theorem run_explained (config : KernelDnsConfig) {Q : TargetAddress → Upstream → Prop}
    (events : List Event) (hmeets : Meets (step config) (AnswersMeet Q) .new events) :
    ∀ output ∈ (run (step config) .new events).2,
      output.Explained config Q (run (step config) .new events).2 := by
  have hstart : CacheExplained config Q .new [] ∧ ∀ output ∈ ([] : List Output),
      output.Explained config Q [] := by
    constructor
    · intro key entry hentry
      cases hentry
    · simp
  have hrun := run_invariant (fun s log => CacheExplained config Q s log ∧
    ∀ output ∈ log, output.Explained config Q log) ?_ hstart events hmeets
  · rw [List.nil_append] at hrun
    exact hrun.2
  · rintro s log event ⟨hcache,hlog⟩ hmeet
    obtain ⟨hcache',houtputs⟩ := step_explained hcache hmeet
    refine ⟨hcache',fun output houtput => ?_⟩
    rcases List.mem_append.mp houtput with houtput | houtput
    · exact (hlog output houtput).mono _
    · exact (houtputs output houtput).mono _

end AtlasKernel.Dns
