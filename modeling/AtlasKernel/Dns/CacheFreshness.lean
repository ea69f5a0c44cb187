import AtlasKernel.Dns.ProxyResolver
import AtlasKernel.Lib.DebugText

/-! How long the resolver for proxy servers serves what an upstream has told it: the time is
that of the last record that has one. Source: `dns.rs`. -/
namespace AtlasKernel.Dns
open AtlasKernel.Lib AtlasKernel.Vless

/-! ## The answers of upstreams -/

def recordTtls (records : List DohAnswer) : List Nat :=
  records.filterMap fun record => if record.recordType = 1 then record.ttl else none

def recordAddresses (records : List DohAnswer) : List IpAddr :=
  records.filterMap fun record =>
    if record.recordType = 1 then IpAddr.parse (utf8 record.data.toList) else none

/-- How long the records may be kept. -/
def leastTtl (records : List DohAnswer) : Nat := (recordTtls records).min?.elim dnsCacheTtl normalizeTtl

/-- What an upstream gives for a host, and how long it may be kept. -/
inductive Gives (config : KernelDnsConfig) (upstream : Upstream) (host : String) :
    List IpAddr → Nat → Prop where
  | doh {endpoint : String} {answer : Option (List DohAnswer)} : endpoint ∈ bootstrapEndpoints config →
    upstream.doh (dohUrl endpoint host) = some answer →
      Gives config upstream host (recordAddresses (answer.getD [])) (leastTtl (answer.getD []))
  | system {addresses : List IpAddr} : upstream.system host = some addresses →
      Gives config upstream host addresses dnsCacheTtl

/-- The addresses come from `ips`. -/
def DrawnFrom (target : TargetAddress) (ips : List IpAddr) (addresses : List SocketAddr) : Prop :=
  ∀ a ∈ addresses, a.port = target.port ∧ ∃ ip ∈ ips, a.ip = normalizeIp ip

/-- What a call returns is what an upstream gave for its host, and if it comes from the cache
it has been there for no longer than it may be kept. -/
def Output.Fresh (config : KernelDnsConfig) (log : List Output) : Output → Prop
  | .hit target addresses now => ∃ asked upstream ips ttl storedAt,
    .stored asked upstream addresses storedAt ∈ log ∧
      asked.host.toLower = target.host.toLower ∧ Gives config upstream asked.host ips ttl ∧
      DrawnFrom target ips addresses ∧ now ≤ storedAt + ttl
  | .stored target upstream addresses _ => ∃ ips ttl,
    Gives config upstream target.host ips ttl ∧ DrawnFrom target ips addresses
  | .known _ _ | .failed _ _ => True

/-- The last record with a time has the least one, within the limits. -/
def LastIsLeast (records : List DohAnswer) : Prop :=
  ∀ last ∈ (recordTtls records).getLast?, ∀ ttl ∈ recordTtls records,
    normalizeTtl last ≤ normalizeTtl ttl

/-- The answer is the first one with an address. -/
def Taken (config : KernelDnsConfig) (upstream : Upstream) (host : String) (records : List DohAnswer) : Prop :=
  ∃ before endpoint after answer, bootstrapEndpoints config = before ++ endpoint :: after ∧
    (∀ other ∈ before, ∀ answer, upstream.doh (dohUrl other host) = some answer →
      recordAddresses (answer.getD []) = []) ∧
    upstream.doh (dohUrl endpoint host) = some answer ∧ records = answer.getD []

/-- In every answer that is taken the last record with a time has the least one. -/
def AnswersInOrder (config : KernelDnsConfig) (target : TargetAddress) (upstream : Upstream) : Prop :=
  ∀ records, Taken config upstream target.host records → LastIsLeast records

/-! ## The time that is taken -/

theorem collectAnswers_eq (ttl : Nat) (records : List DohAnswer) :
    collectAnswers ttl records =
      (recordAddresses records, (recordTtls records).getLast?.elim ttl normalizeTtl) := by
  induction records generalizing ttl with
  | nil => rfl
  | cons record records ih =>
    rw [collectAnswers]
    by_cases htype : record.recordType = 1
    · rw [if_neg (not_not.mpr htype), ih]
      have hlast : (recordTtls (record :: records)).getLast?.elim ttl normalizeTtl =
          (recordTtls records).getLast?.elim (record.ttl.elim ttl normalizeTtl) normalizeTtl := by
        cases httl : record.ttl with
        | none => simp [recordTtls, htype, httl]
        | some value =>
          rw [recordTtls, List.filterMap_cons, if_pos htype, httl, List.getLast?_cons]
          rw [recordTtls]
          cases (records.filterMap fun record => if record.recordType = 1 then record.ttl else none).getLast? <;>
            simp only [Option.elim_some, Option.elim_none, Option.getD_none, Option.getD_some]
      rw [hlast]
      cases hdata : IpAddr.parse (utf8 record.data.toList) <;>
        simp [recordAddresses, htype, hdata]
    · rw [if_pos htype, ih]
      simp [recordAddresses, recordTtls, htype]

theorem normalizeTtl_mono {a b : Nat} (h : a ≤ b) : normalizeTtl a ≤ normalizeTtl b := by
  have hsecs : fromSecs a ≤ fromSecs b := Nat.mul_le_mul_left _ h
  rw [normalizeTtl, normalizeTtl]
  omega

/-- The time that is taken is the least one exactly if the last one is. -/
theorem last_le_leastTtl_iff (records : List DohAnswer) :
    (recordTtls records).getLast?.elim dnsCacheTtl normalizeTtl ≤ leastTtl records ↔
      LastIsLeast records := by
  rw [leastTtl, LastIsLeast]
  cases hlast : (recordTtls records).getLast? with
  | none =>
    rw [List.getLast?_eq_none_iff.mp hlast]
    simp
  | some last =>
    cases hleast : (recordTtls records).min? with
    | none =>
      rw [List.min?_eq_none_iff.mp hleast] at hlast
      cases hlast
    | some least =>
      obtain ⟨hmem,hle⟩ := List.min?_eq_some_iff.mp hleast
      simp only [Option.elim_some, Option.mem_def, Option.some.injEq, forall_eq']
      constructor
      · intro h ttl httl
        exact h.trans (normalizeTtl_mono (hle ttl httl))
      · intro h
        exact h least hmem

theorem lookupEndpoints_ok {config : KernelDnsConfig} {upstream : Upstream} {host : String}
    {lookup : BootstrapLookup} {e : DohError} {before endpoints : List String}
    (hall : bootstrapEndpoints config = before ++ endpoints)
    (hbefore : ∀ other ∈ before, ∀ answer, upstream.doh (dohUrl other host) = some answer →
      recordAddresses (answer.getD []) = [])
    (h : lookupEndpoints upstream host e endpoints = .ok lookup) :
    ∃ records, Taken config upstream host records ∧ lookup.addresses = recordAddresses records ∧
      lookup.ttl = (recordTtls records).getLast?.elim dnsCacheTtl normalizeTtl ∧
      Gives config upstream host (recordAddresses records) (leastTtl records) := by
  induction endpoints generalizing before e with
  | nil => cases h
  | cons endpoint endpoints ih =>
    rw [lookupEndpoints] at h
    have hmem : endpoint ∈ bootstrapEndpoints config := by simp [hall]
    have hnext : bootstrapEndpoints config = before ++ [endpoint] ++ endpoints := by simp [hall]
    cases hanswer : upstream.doh (dohUrl endpoint host) with
    | none =>
      rw [lookupDohEndpoint, hanswer] at h
      refine ih hnext ?_ h
      simp only [List.mem_append, List.mem_singleton]
      rintro other (hother | rfl)
      · exact hbefore other hother
      · intro answer hother
        cases hanswer.symm.trans hother
    | some answer =>
      simp only [lookupDohEndpoint, hanswer, collectAnswers_eq] at h
      by_cases hnone : recordAddresses (answer.getD []) = []
      · rw [if_pos hnone] at h
        refine ih hnext ?_ h
        simp only [List.mem_append, List.mem_singleton]
        rintro other (hother | rfl)
        · exact hbefore other hother
        · intro answer' hother
          obtain rfl := Option.some.inj (hanswer.symm.trans hother)
          exact hnone
      · rw [if_neg hnone] at h
        obtain rfl := Except.ok.inj h
        exact ⟨_,⟨before,endpoint,endpoints,answer,hall,hbefore,hanswer,rfl⟩,rfl,rfl,.doh hmem hanswer⟩

theorem cacheKey_inj {target target' : TargetAddress} (h : cacheKey target = cacheKey target') :
    target.host.toLower = target'.host.toLower ∧ target.port = target'.port := by
  have htext := congrArg String.toList h
  simp only [cacheKey, String.toList_append, List.append_assoc] at htext
  obtain ⟨hhost,hport⟩ := after_eq (not_mem_natText (by decide) _) (not_mem_natText (by decide) _) htext
  have hnat := Nat.repr_injective (String.toList_inj.mp hport)
  exact ⟨String.toList_inj.mp hhost,UInt16.toNat_inj.mp hnat⟩

/-- A lookup gives what an upstream gives, for no longer if the answer is in order. -/
theorem resolveUpstream_gives {config : KernelDnsConfig} {upstream : Upstream} {target : TargetAddress}
    {lookup : BootstrapLookup} {addresses : List SocketAddr} (horder : AnswersInOrder config target upstream)
    (h : resolveUpstream config upstream target = .ok (lookup, addresses)) :
    ∃ ips ttl, Gives config upstream target.host ips ttl ∧ DrawnFrom target ips addresses ∧
      lookup.ttl ≤ ttl := by
  obtain ⟨hlookup,haddresses⟩ := resolveUpstream_ok h
  have hdrawn : DrawnFrom target lookup.addresses addresses := fun a ha => (haddresses a ha).2
  rcases hlookup with hboot | hsystem
  · obtain ⟨records,htaken,hips,httl,hgives⟩ := @lookupEndpoints_ok config _ _ _ _ [] _ rfl (by simp) hboot
    rw [hips] at hdrawn
    refine ⟨_,_,hgives,hdrawn,?_⟩
    rw [httl]
    exact (last_le_leastTtl_iff records).mpr (horder records htaken)
  · rw [lookupSystem] at hsystem
    split at hsystem
    · cases hsystem
    · next ips hips =>
      split_ifs at hsystem
      obtain rfl := Except.ok.inj hsystem
      exact ⟨ips,dnsCacheTtl,.system hips,hdrawn,Nat.le_refl _⟩

/-- In a run where every answer is in order all that is returned is fresh. -/
theorem answers_fresh (config : KernelDnsConfig) (events : List Event)
    (h : Meets (step config) (AnswersMeet (AnswersInOrder config)) .new events) :
    ∀ output ∈ (run (step config) .new events).2,
      output.Fresh config (run (step config) .new events).2 := by
  intro output houtput
  have hexplained := run_explained config events h output houtput
  cases output with
  | known target addresses => trivial
  | failed target error => trivial
  | stored target upstream addresses now =>
    obtain ⟨horder,lookup,hok⟩ := hexplained
    obtain ⟨ips,ttl,hgives,hdrawn,-⟩ := resolveUpstream_gives horder hok
    exact ⟨ips,ttl,hgives,hdrawn⟩
  | hit target addresses now =>
    obtain ⟨asked,upstream,lookup,storedAt,hstored,horder,hkey,hok,hnow⟩ := hexplained
    obtain ⟨ips,ttl,hgives,hdrawn,hle⟩ := resolveUpstream_gives horder hok
    obtain ⟨hhost,hport⟩ := cacheKey_inj hkey
    refine ⟨asked,upstream,ips,ttl,storedAt,hstored,hhost,hgives,?_,by omega⟩
    intro a ha
    obtain ⟨haport,hip⟩ := hdrawn a ha
    exact ⟨haport.trans hport,hip⟩

def answering (records : List DohAnswer) : Upstream := ⟨fun _ => some (some records), fun _ => none⟩

def oneServer : KernelDnsConfig := ⟨[], false, ["https://192.0.2.53/dns-query"], []⟩

/-- A lookup, its answer and a second lookup. -/
def askedTwice : List Event :=
  [.resolve ⟨"proxy", 443⟩ 0, .answered 0 (answering [⟨1, some 60, "192.0.2.1"⟩]) 0,
    .resolve ⟨"proxy", 443⟩ 1]

theorem answers_fresh_sample : (run (step oneServer) .new askedTwice).2.length = 2 ∧
    ∀ output ∈ (run (step oneServer) .new askedTwice).2,
      output.Fresh oneServer (run (step oneServer) .new askedTwice).2 := by
  refine ⟨by decide +kernel,?_⟩
  refine answers_fresh oneServer _ (meets_of_forall (fun event hevent s => ?_) _)
  rw [askedTwice] at hevent
  simp only [List.mem_cons, List.not_mem_nil, or_false] at hevent
  rcases hevent with rfl | rfl | rfl
  · trivial
  · rintro target - records ⟨_,_,_,_,_,_,hanswer,rfl⟩
    obtain rfl := Option.some.inj hanswer
    simp [LastIsLeast, recordTtls]
  · trivial

/-! ## An answer that is not in order -/

def twoRecords : List DohAnswer := [⟨1, some 30, "192.0.2.1"⟩, ⟨1, some 3600, "192.0.2.2"⟩]

theorem leastTtl_twoRecords : leastTtl twoRecords = fromSecs 30 := by decide

theorem resolve_twoRecords (target : TargetAddress) : ∃ lookup addresses,
    resolveUpstream oneServer (answering twoRecords) target = .ok (lookup, addresses) ∧
      lookup.ttl = fromSecs 3600 := by
  have hfirst : IpAddr.parse (utf8 "192.0.2.1".toList) = some (.v4 ⟨[192, 0, 2, 1], rfl⟩) := by
    decide +kernel
  have hsecond : IpAddr.parse (utf8 "192.0.2.2".toList) = some (.v4 ⟨[192, 0, 2, 2], rfl⟩) := by
    decide +kernel
  have hips : recordAddresses twoRecords =
      [.v4 ⟨[192, 0, 2, 1], rfl⟩, .v4 ⟨[192, 0, 2, 2], rfl⟩] := by
    simp only [recordAddresses, twoRecords, List.filterMap_cons, if_true, hfirst, hsecond,
      List.filterMap_nil]
  have httl : (recordTtls twoRecords).getLast?.elim dnsCacheTtl normalizeTtl = fromSecs 3600 := by decide
  have hboot : lookupBootstrap oneServer (answering twoRecords) target.host =
      .ok ⟨recordAddresses twoRecords, fromSecs 3600, trimEndpoint "https://192.0.2.53/dns-query"⟩ := by
    have hendpoints : bootstrapEndpoints oneServer = ["https://192.0.2.53/dns-query"] := by decide
    rw [lookupBootstrap, hendpoints, lookupEndpoints, lookupDohEndpoint]
    simp only [answering, Option.getD_some, collectAnswers_eq, httl]
    rw [if_neg (by rw [hips]; simp)]
  have husable : (((recordAddresses twoRecords).map normalizeIp).filter fun ip =>
      isUsableIp oneServer ip) ≠ [] := by
    rw [hips]
    decide
  rw [resolveUpstream, hboot]
  simp only [bind, Except.bind]
  rw [if_neg]
  · exact ⟨_,_,rfl,rfl⟩
  · intro hempty
    have hlen := congrArg List.length hempty
    rw [sortAddresses, List.length_mergeSort, List.length_map] at hlen
    exact husable (List.length_eq_zero_iff.mp hlen)

/-- An answer with the times 30 and 3600 is served after 1000 seconds. -/
theorem stale_answer_is_served : ¬ ∀ config events, ∀ output ∈ (run (step config) .new events).2,
    output.Fresh config (run (step config) .new events).2 := by
  intro h
  have hlocal : resolveLocally oneServer ⟨"proxy", 443⟩ = none := by
    have hparse : IpAddr.parse (utf8 "proxy".toList) = none := by decide +kernel
    rw [resolveLocally, hparse]
    rfl
  obtain ⟨lookup,addresses,hok,httl⟩ := resolve_twoRecords ⟨"proxy", 443⟩
  have hlt : fromSecs 1000 < 0 + fromSecs 3600 := by decide
  have hlog : (run (step oneServer) .new [.resolve ⟨"proxy", 443⟩ 0, .answered 0 (answering twoRecords) 0,
      .resolve ⟨"proxy", 443⟩ (fromSecs 1000)]).2 =
        [.stored ⟨"proxy", 443⟩ (answering twoRecords) addresses 0,
          .hit ⟨"proxy", 443⟩ addresses (fromSecs 1000)] := by
    simp only [run, step, hlocal, ProxyServerResolver.new, List.nil_append, List.getElem?_cons_zero, hok,
      Function.update_self, httl, if_pos hlt, List.append_nil, List.cons_append]
  have hfresh := h oneServer _ _ (hlog ▸ List.mem_cons_of_mem _ List.mem_cons_self)
  rw [hlog] at hfresh
  obtain ⟨asked,upstream,ips,ttl,storedAt,hstored,-,hgives,-,hle⟩ := hfresh
  simp only [List.mem_cons, List.not_mem_nil, or_false, reduceCtorEq, Output.stored.injEq] at hstored
  obtain ⟨-,rfl,-,rfl⟩ := hstored
  cases hgives with
  | doh hmem hanswer =>
    obtain rfl := Option.some.inj hanswer
    rw [Option.getD_some, leastTtl_twoRecords] at hle
    exact absurd hle (by decide)
  | system hanswer => cases hanswer

end AtlasKernel.Dns
