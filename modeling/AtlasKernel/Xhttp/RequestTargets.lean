import AtlasKernel.Lib.RequestTarget
import AtlasKernel.Vless.ConfigKeys

/-! The targets of the XHTTP requests, which a download and its uploads have to find each other
by. Source: `xhttp_path` and what uses it in `adapter/vless.rs`, `xhttp_base_path` and
`xhttp_path_with_query` in `adapter/shadowsocks/transport.rs`. -/
namespace AtlasKernel.Xhttp
open AtlasKernel.Lib AtlasKernel.Vless

/-! ## Targets -/

/-- `xhttp_session_id`, from its random bytes. -/
def xhttpSessionId (bytes : Vector UInt8 16) : List Char := hex bytes.toList

def seqText (seq : UInt64) : List Char := Nat.toDigits 10 seq.toNat

def xhttpPathWithQueryRaw (basePath session : List Char) (seq : Option UInt64) : List Char :=
  let join := if '?' ∈ basePath then '&' else '?'
  match seq with
  | some seq =>
    basePath ++ join :: ("session=".toList ++ session ++ "&seq=".toList ++ seqText seq)
  | none => basePath ++ join :: ("session=".toList ++ session)

def xhttpPathWithQuery (config : VlessConfig) (session : List Char) (seq : Option UInt64) :
    List Char :=
  xhttpPathWithQueryRaw config.xhttpPath session seq

/-- The path of a POST in `spawn_h2_xhttp_packet_bridge` of VLESS. -/
def h2PostPath (basePath session : List Char) (seq : UInt64) : List Char :=
  basePath ++ "?session=".toList ++ session ++ "&seq=".toList ++ seqText seq

namespace Plugin

def xhttpBasePath (path : List Char) : List Char :=
  let path := if path = [] then ['/'] else if path.head? = some '/' then path else '/' :: path
  if path.getLast? = some '/' then path else path ++ ['/']

def xhttpPathWithQuery (basePath session : List Char) (seq : Option UInt64) : List Char :=
  xhttpPathWithQueryRaw (xhttpBasePath basePath) session seq

end Plugin

def configuredPath (config : VlessConfig) : List Char := config.transport.path.toList

/-- Of VLESS over HTTP/2 and HTTP/3; and of the plugin with the same path, which some callers
have normalised already. -/
def downloadTargets (config : VlessConfig) (session : List Char) : List (List Char) :=
  [xhttpPathWithQuery config session none,
    xhttpPathWithQueryRaw config.xhttpPath session none,
    Plugin.xhttpPathWithQuery (configuredPath config) session none,
    Plugin.xhttpPathWithQuery (Plugin.xhttpBasePath (configuredPath config)) session none]

def postTargets (config : VlessConfig) (session : List Char) (seq : UInt64) : List (List Char) :=
  [h2PostPath config.xhttpPath session seq,
    xhttpPathWithQueryRaw config.xhttpPath session (some seq),
    Plugin.xhttpPathWithQuery (configuredPath config) session (some seq),
    Plugin.xhttpPathWithQuery (Plugin.xhttpBasePath (configuredPath config)) session (some seq)]

/-! ## What they have to be -/

def sessionParam (session : List Char) : List Char × List Char := ("session".toList, session)
def seqParam (seq : UInt64) : List Char × List Char := ("seq".toList, seqText seq)

/-- The path is the configured one, and the parameters are the configured ones and then `own`,
whose names occur once. -/
structure WellFormed (configured : List Char) (own : List (List Char × List Char))
    (target : List Char) : Prop where
  path : targetPath target = Plugin.xhttpBasePath (targetPath configured)
  params : queryParams (targetQuery target) = queryParams (targetQuery configured) ++ own
  once : ∀ param ∈ own, (queryParams (targetQuery target)).filter (·.1 = param.1) = [param]

def TargetsWellFormed (config : VlessConfig) : Prop :=
  ∀ (id : Vector UInt8 16) (seq : UInt64),
    (∀ target ∈ downloadTargets config (xhttpSessionId id),
      WellFormed (configuredPath config) [sessionParam (xhttpSessionId id)] target) ∧
    ∀ target ∈ postTargets config (xhttpSessionId id) seq,
      WellFormed (configuredPath config) [sessionParam (xhttpSessionId id), seqParam seq] target

/-! ## The base path -/

theorem xhttpPath_eq (config : VlessConfig) :
    config.xhttpPath = Plugin.xhttpBasePath (configuredPath config) := by
  have hnormal (path : List Char) : VlessConfig.normalizedPath path =
      if path = [] then ['/'] else if path.head? = some '/' then path else '/' :: path := by
    rw [VlessConfig.normalizedPath.eq_def]
    split
    case h_1 => rfl
    case h_2 => rfl
    case h_3 c rest hc =>
      have hne : c ≠ '/' := hc
      simp [hne]
  rw [VlessConfig.xhttpPath, Plugin.xhttpBasePath, configuredPath, hnormal]

theorem xhttpBasePath_cases (path : List Char) :
    ∃ rooted, rooted.head? = some '/' ∧ (rooted = path ∨ rooted = '/' :: path) ∧
      ((∃ middle, rooted = middle ++ ['/'] ∧ Plugin.xhttpBasePath path = rooted) ∨
        Plugin.xhttpBasePath path = rooted ++ ['/']) := by
  rw [Plugin.xhttpBasePath]
  generalize hrooted : (if path = [] then ['/'] else if path.head? = some '/' then path
    else '/' :: path) = rooted
  refine ⟨rooted, ?_, ?_, ?_⟩
  · rw [← hrooted]
    split
    case isTrue => rfl
    case isFalse =>
      split
      case isTrue hhead => exact hhead
      case isFalse => rfl
  · rw [← hrooted]
    split
    case isTrue hnil => exact .inr (by rw [hnil])
    case isFalse =>
      split
      case isTrue => exact .inl rfl
      case isFalse => exact .inr rfl
  · split
    case isTrue hlast =>
      obtain ⟨middle,hmiddle⟩ := List.getLast?_eq_some_iff.mp hlast
      exact .inl ⟨middle, hmiddle, rfl⟩
    case isFalse => exact .inr rfl

theorem xhttpBasePath_ends (path : List Char) :
    (Plugin.xhttpBasePath path).head? = some '/' ∧
      ∃ middle, Plugin.xhttpBasePath path = middle ++ ['/'] := by
  obtain ⟨rooted,hhead,_,⟨middle,hmiddle,heq⟩ | heq⟩ := xhttpBasePath_cases path
  · exact ⟨heq ▸ hhead, middle, heq.trans hmiddle⟩
  · refine ⟨?_, rooted, heq⟩
    rw [heq, List.head?_append, hhead]
    rfl

theorem xhttpBasePath_xhttpBasePath (path : List Char) :
    Plugin.xhttpBasePath (Plugin.xhttpBasePath path) = Plugin.xhttpBasePath path := by
  obtain ⟨hhead,middle,hlast⟩ := xhttpBasePath_ends path
  generalize Plugin.xhttpBasePath path = base at hhead hlast
  have hne : base ≠ [] := by simp [hlast]
  have hslash : base.getLast? = some '/' := by simp [hlast]
  rw [Plugin.xhttpBasePath, if_neg hne, if_pos hhead]
  exact if_pos hslash

theorem mem_xhttpBasePath_iff {c : Char} (hc : c ≠ '/') (path : List Char) :
    c ∈ Plugin.xhttpBasePath path ↔ c ∈ path := by
  obtain ⟨rooted,_,hrooted,⟨_,_,heq⟩ | heq⟩ := xhttpBasePath_cases path
  · rw [heq]
    cases hrooted with
    | inl hsame => rw [hsame]
    | inr hslash => simp [hslash, hc]
  · rw [heq]
    cases hrooted with
    | inl hsame => simp [hsame, hc]
    | inr hslash => simp [hslash, hc]

/-! ## The query -/

def sessionText (session : List Char) : List Char := "session".toList ++ '=' :: session
def seqQuery (seq : UInt64) : List Char := "seq".toList ++ '=' :: seqText seq

theorem xhttpPathWithQueryRaw_none (basePath session : List Char) :
    xhttpPathWithQueryRaw basePath session none =
      basePath ++ (if '?' ∈ basePath then '&' else '?') :: sessionText session := rfl

theorem xhttpPathWithQueryRaw_some (basePath session : List Char) (seq : UInt64) :
    xhttpPathWithQueryRaw basePath session (some seq) =
      basePath ++ (if '?' ∈ basePath then '&' else '?') ::
        (sessionText session ++ '&' :: seqQuery seq) := by
  have hseq : "&seq=".toList ++ seqText seq = '&' :: seqQuery seq := rfl
  rw [xhttpPathWithQueryRaw, List.append_assoc, List.append_assoc, hseq]
  rfl

theorem h2PostPath_eq (basePath session : List Char) (seq : UInt64) :
    h2PostPath basePath session seq =
      basePath ++ '?' :: (sessionText session ++ '&' :: seqQuery seq) := by
  have hseq : "&seq=".toList ++ seqText seq = '&' :: seqQuery seq := rfl
  rw [h2PostPath, List.append_assoc, List.append_assoc, List.append_assoc, hseq]
  rfl

theorem notMem_sessionText {c : Char} (hname : c ∉ "session=".toList)
    (hhex : c ∉ "0123456789abcdef".toList) (id : Vector UInt8 16) :
    c ∉ sessionText (xhttpSessionId id) := by
  intro h
  have hmem : c ∈ "session=".toList ++ hex id.toList := h
  cases List.mem_append.mp hmem with
  | inl hfirst => exact hname hfirst
  | inr hrest => exact notMem_hex hhex _ hrest

theorem notMem_seqQuery {c : Char} (hname : c ∉ "seq=".toList) (hdigit : c.isDigit = false)
    (seq : UInt64) : c ∉ seqQuery seq := by
  intro h
  have hmem : c ∈ "seq=".toList ++ seqText seq := h
  cases List.mem_append.mp hmem with
  | inl hfirst => exact hname hfirst
  | inr hrest => exact notMem_digits hdigit _ hrest

theorem queryParams_session (id : Vector UInt8 16) :
    queryParams (sessionText (xhttpSessionId id)) = [sessionParam (xhttpSessionId id)] := by
  have hname : '=' ∉ "session".toList := by decide
  have hamp : '&' ∉ sessionText (xhttpSessionId id) :=
    notMem_sessionText (by decide) (by decide) id
  have hpercent : '%' ∉ sessionText (xhttpSessionId id) :=
    notMem_sessionText (by decide) (by decide) id
  exact queryParams_single hname hamp hpercent

theorem queryParams_seq (seq : UInt64) : queryParams (seqQuery seq) = [seqParam seq] := by
  have hname : '=' ∉ "seq".toList := by decide
  have hamp : '&' ∉ seqQuery seq := notMem_seqQuery (by decide) (by decide) seq
  have hpercent : '%' ∉ seqQuery seq := notMem_seqQuery (by decide) (by decide) seq
  exact queryParams_single hname hamp hpercent

/-! ## Paths without a query -/

theorem notMem_fragment {front : List Char} (h : '#' ∉ front) {c : Char} (hc : c ≠ '#')
    (id : Vector UInt8 16) (seq : UInt64) :
    '#' ∉ front ++ c :: sessionText (xhttpSessionId id) ∧
      '#' ∉ front ++ c :: (sessionText (xhttpSessionId id) ++ '&' :: seqQuery seq) := by
  have hsession : '#' ∉ sessionText (xhttpSessionId id) :=
    notMem_sessionText (by decide) (by decide) id
  have hseq : '#' ∉ seqQuery seq := notMem_seqQuery (by decide) (by decide) seq
  simp [h, hc.symm, hsession, hseq]

theorem wellFormed_plain {path : List Char} (hquery : '?' ∉ path) (hfragment : '#' ∉ path)
    {own : List (List Char × List Char)} {query : List Char} (hparams : queryParams query = own)
    (hnames : ∀ param ∈ own, own.filter (·.1 = param.1) = [param])
    (htext : '#' ∉ Plugin.xhttpBasePath path ++ '?' :: query) :
    WellFormed path own (Plugin.xhttpBasePath path ++ '?' :: query) := by
  have hbase : '?' ∉ Plugin.xhttpBasePath path := by rwa [mem_xhttpBasePath_iff (by decide)]
  have htarget := targetPath_query hbase htext
  have hconfigured := targetPath_self hquery hfragment
  have hnone : queryParams [] = [] := by decide
  constructor
  · rw [htarget.1, hconfigured.1]
  · rw [htarget.2, hconfigured.2, hparams, hnone, List.nil_append]
  · rwa [htarget.2, hparams]

theorem names_pair {p q : List Char × List Char} (h : p.1 ≠ q.1) :
    ∀ param ∈ [p, q], [p, q].filter (·.1 = param.1) = [param] := by
  simp [h, h.symm]

theorem names_own (session : List Char) (seq : UInt64) :
    ∀ param ∈ [sessionParam session, seqParam seq],
      [sessionParam session, seqParam seq].filter (·.1 = param.1) = [param] := by
  have hne : "session".toList ≠ "seq".toList := by decide
  exact names_pair hne

theorem queryParams_own (id : Vector UInt8 16) (seq : UInt64) :
    queryParams (sessionText (xhttpSessionId id) ++ '&' :: seqQuery seq) =
      [sessionParam (xhttpSessionId id), seqParam seq] := by
  rw [queryParams_append, queryParams_session, queryParams_seq]
  rfl

theorem targetsWellFormed_plain {config : VlessConfig} (hquery : '?' ∉ configuredPath config)
    (hfragment : '#' ∉ configuredPath config) : TargetsWellFormed config := by
  have hbase : '?' ∉ Plugin.xhttpBasePath (configuredPath config) := by
    rwa [mem_xhttpBasePath_iff (by decide)]
  have hclean : '#' ∉ Plugin.xhttpBasePath (configuredPath config) := by
    rwa [mem_xhttpBasePath_iff (by decide)]
  have hne : '?' ≠ '#' := by decide
  intro id seq
  have htext := notMem_fragment hclean hne id seq
  have hdownload := wellFormed_plain hquery hfragment (queryParams_session id) (by simp) htext.1
  have hpost := wellFormed_plain hquery hfragment (queryParams_own id seq) (names_own _ seq) htext.2
  constructor
  · simpa [downloadTargets, xhttpPathWithQuery, Plugin.xhttpPathWithQuery, xhttpPath_eq,
      xhttpPathWithQueryRaw_none, xhttpBasePath_xhttpBasePath, hbase] using hdownload
  · simpa [postTargets, Plugin.xhttpPathWithQuery, xhttpPath_eq, h2PostPath_eq,
      xhttpPathWithQueryRaw_some, xhttpBasePath_xhttpBasePath, hbase] using hpost

/-! ## Paths with a query -/

/-- The download and the POST over HTTP/2, and what they make of the parameters. -/
theorem TargetsWellFormed.params {config : VlessConfig} (h : TargetsWellFormed config) :
    ∃ (session : List Char) (seq : UInt64), session = xhttpSessionId (Vector.replicate 16 0) ∧
      queryParams (targetQuery (xhttpPathWithQueryRaw config.xhttpPath session none)) =
        queryParams (targetQuery (configuredPath config)) ++ [sessionParam session] ∧
      queryParams (targetQuery (h2PostPath config.xhttpPath session seq)) =
        queryParams (targetQuery (configuredPath config)) ++ [sessionParam session, seqParam seq] := by
  have hboth := h (Vector.replicate 16 0) 0
  refine ⟨_, 0, rfl, ?_, ?_⟩
  · exact (hboth.1 _ (by simp [downloadTargets])).params
  · exact (hboth.2 _ (by simp [postTargets])).params

theorem TargetsWellFormed.noFragment {config : VlessConfig} (h : TargetsWellFormed config) :
    '#' ∉ configuredPath config := by
  intro hmem
  have hbase : '#' ∈ config.xhttpPath := by
    rwa [xhttpPath_eq, mem_xhttpBasePath_iff (by decide)]
  obtain ⟨session,seq,_,hdownload,hpost⟩ := h.params
  rw [xhttpPathWithQueryRaw_none, targetQuery, withoutFragment_append hbase] at hdownload
  rw [h2PostPath_eq, targetQuery, withoutFragment_append hbase] at hpost
  have hlength := congrArg List.length (hdownload.symm.trans hpost)
  simp at hlength

/-- A path with a query ends within the query. -/
theorem base_query {base : List Char} (hquery : '?' ∈ base) (hlast : ∃ middle, base = middle ++ ['/']) :
    ∃ front rest, base = front ++ '?' :: (rest ++ ['/']) ∧ '?' ∉ front := by
  obtain ⟨front,query,hbase,hfront⟩ := List.eq_append_cons_of_mem hquery
  obtain ⟨middle,hmiddle⟩ := hlast
  have heq : front ++ '?' :: query = middle ++ ['/'] := hbase.symm.trans hmiddle
  cases List.eq_nil_or_concat query with
  | inl hnil =>
    subst hnil
    have hinj := List.append_inj' heq rfl
    simp at hinj
  | inr hconcat =>
    obtain ⟨rest,last,rfl⟩ := hconcat
    have hinj : (front ++ '?' :: rest) ++ [last] = middle ++ ['/'] := by simpa using heq
    have hslash := (List.append_inj' hinj rfl).2
    rw [List.singleton_inj] at hslash
    subst hslash
    exact ⟨front, rest, by rw [hbase, List.concat_eq_append], hfront⟩

/-- The download is joined to the query by an ampersand, but the POST puts its parameters
behind a second question mark, into the last parameter there is. -/
theorem TargetsWellFormed.noQuery {config : VlessConfig} (h : TargetsWellFormed config) :
    '?' ∉ configuredPath config := by
  intro hmem
  have hquery : '?' ∈ config.xhttpPath := by
    rwa [xhttpPath_eq, mem_xhttpBasePath_iff (by decide)]
  have hclean : '#' ∉ config.xhttpPath := by
    rw [xhttpPath_eq, mem_xhttpBasePath_iff (by decide)]
    exact h.noFragment
  have hamp : '&' ≠ '#' := by decide
  have hmark : '?' ≠ '#' := by decide
  have hends := (xhttpBasePath_ends (configuredPath config)).2
  rw [← xhttpPath_eq] at hends
  obtain ⟨front,rest,hbase,hfront⟩ := base_query hquery hends
  obtain ⟨session,seq,rfl,hdownload,hpost⟩ := h.params
  have hget := (notMem_fragment hclean hamp (Vector.replicate 16 0) seq).1
  have hput := (notMem_fragment hclean hmark (Vector.replicate 16 0) seq).2
  have hown : '&' ∉ '?' :: sessionText (xhttpSessionId (Vector.replicate 16 0)) := by
    have hsession := notMem_sessionText (c := '&') (by decide) (by decide) (Vector.replicate 16 0)
    simpa using hsession
  rw [xhttpPathWithQueryRaw_none, if_pos hquery] at hdownload
  rw [h2PostPath_eq] at hpost
  have hone := congrArg List.length (queryParams_session (Vector.replicate 16 0))
  generalize sessionText (xhttpSessionId (Vector.replicate 16 0)) = own at hget hput hdownload hpost hown hone
  rw [hbase, List.append_assoc, List.cons_append] at hget hput hdownload hpost
  rw [(targetPath_query hfront hget).2, queryParams_append] at hdownload
  have hjoin : rest ++ ['/'] ++ '?' :: (own ++ '&' :: seqQuery seq) =
      (rest ++ '/' :: '?' :: own) ++ '&' :: seqQuery seq := by simp
  rw [(targetPath_query hfront hput).2, hjoin, queryParams_append] at hpost
  have hslash : '/' ≠ '&' := by decide
  have hlength := queryParams_extend rest hslash hown
  have hfirst := congrArg List.length hdownload
  have hsecond := congrArg List.length hpost
  rw [queryParams_seq] at hsecond
  simp only [List.length_append, List.length_cons, List.length_nil] at hone hfirst hsecond
  omega

/-- A path with a query loses the slash it is to end with, and has its last parameter changed;
and then the POST over HTTP/2 has no session. -/
theorem targetsWellFormed_iff (config : VlessConfig) :
    TargetsWellFormed config ↔ '?' ∉ configuredPath config ∧ '#' ∉ configuredPath config := by
  constructor
  · intro h
    exact ⟨h.noQuery, h.noFragment⟩
  · rintro ⟨hquery,hfragment⟩
    exact targetsWellFormed_plain hquery hfragment

/-- `/x?ed=1` as the path. -/
def earlyDataConfig : VlessConfig where
  server := "example.com"
  serverPort := 443
  uuid := Vector.replicate 16 0
  sni := none
  flow := none
  security := .tls
  transport := ⟨.xHttp, none, "/x?ed=1", "", none, .packetUp, .h2, 1000000, 30, ⟨0, 0, 0, 0, 0⟩⟩
  insecure := false

theorem not_targetsWellFormed_earlyData : ¬ TargetsWellFormed earlyDataConfig := by
  intro h
  exact h.noQuery (by decide)

example : h2PostPath earlyDataConfig.xhttpPath "abc".toList 7 =
    "/x?ed=1/?session=abc&seq=7".toList := by decide

end AtlasKernel.Xhttp
