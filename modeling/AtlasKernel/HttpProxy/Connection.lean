import AtlasKernel.HttpProxy.Forward

/-! Requests on one connection to the HTTP inbound: what a client sends, what each request
asks for, and which bytes reach which site. -/
namespace AtlasKernel.HttpProxy
open AtlasKernel.Lib AtlasKernel.Vless

def crlf : Bytes := [13, 10]

/-! ## Requests -/

/-- A host with its port; an IPv6 host stands in brackets. -/
structure Authority where
  host : Text
  bracketed : Bool
  port : Option Text
  hostChars : ∀ c ∈ host, isWhitespace c = false ∧ c ∉ "/?#[]@".toList ∧ (c = ':' → bracketed = true)
  digits : ∀ text ∈ port, (∀ c ∈ text, (digitValue c).isSome) ∧
    (text ≠ [] → (parseUnsigned 65535 text).isSome)

def Authority.text (authority : Authority) : Text :=
  (if authority.bracketed then '[' :: authority.host ++ [']'] else authority.host) ++
    authority.port.elim [] (':' :: ·)

/-- The port that is meant; an empty one is none. -/
def Authority.portNumber (authority : Authority) : UInt16 :=
  ((authority.port.bind (parseUnsigned 65535)).map UInt16.ofNat).getD 80

/-- A host, in any case of letters, and a port. -/
abbrev Site := Text × UInt16

def Authority.site (authority : Authority) : Site :=
  (toAsciiLowercase authority.host, authority.portNumber)

/-- A line of the head behind the first one. -/
structure FieldLine where
  bytes : Bytes
  ne : bytes ≠ []
  oneLine : ∀ b ∈ bytes, b ≠ 13 ∧ b ≠ 10

def FieldLine.IsHost (line : FieldLine) : Prop :=
  ∃ name, toAsciiLowercase name = "host".toList ∧ utf8 (name ++ [':']) <+: line.bytes

structure HostLine where
  name : Text
  left : Text
  authority : Authority
  right : Text
  isHost : toAsciiLowercase name = "host".toList
  blanks : ∀ c ∈ left ++ right, c = ' ' ∨ c = '\t'

def HostLine.text (line : HostLine) : Text :=
  line.name ++ ':' :: line.left ++ line.authority.text ++ line.right

/-- `GET http://host/path?query`, with any lines behind it. -/
structure AbsoluteTarget where
  scheme : Text
  authority : Authority
  path : Text
  query : Option Text
  lines : List FieldLine
  isHttp : toAsciiLowercase scheme = "http".toList
  pathFront : path = [] ∨ path.head? = some '/'
  pathChars : ∀ c ∈ path, isWhitespace c = false
  queryChars : ∀ text ∈ query, ∀ c ∈ text, isWhitespace c = false

/-- `GET /path`, with one host line. -/
structure OriginTarget where
  uri : Text
  linesBefore : List FieldLine
  host : HostLine
  linesAfter : List FieldLine
  uriFront : uri = ['*'] ∨ uri.head? = some '/'
  uriChars : ∀ c ∈ uri, isWhitespace c = false
  oneHost : ∀ line ∈ linesBefore ++ linesAfter, ¬ line.IsHost

inductive Target where
  | absolute (target : AbsoluteTarget)
  | origin (target : OriginTarget)

def Target.authority : Target → Authority
  | .absolute target => target.authority
  | .origin target => target.host.authority

def AbsoluteTarget.queryText (target : AbsoluteTarget) : Text := target.query.elim [] ('?' :: ·)

def Target.uri : Target → Text
  | .absolute target =>
    target.scheme ++ "://".toList ++ target.authority.text ++ target.path ++ target.queryText
  | .origin target => target.uri

/-- The URI as the site itself is to be asked for it. -/
def Target.originUri : Target → Text
  | .absolute target => (if target.path = [] then ['/'] else target.path) ++ target.queryText
  | .origin target => target.uri

def Target.lines : Target → List Bytes
  | .absolute target => target.lines.map FieldLine.bytes
  | .origin target => target.linesBefore.map FieldLine.bytes ++
      utf8 target.host.text :: target.linesAfter.map FieldLine.bytes

/-- A request that does not ask for a tunnel, with any body. -/
structure Request where
  method : Text
  target : Target
  version : Text
  body : Bytes
  method_ne : method ≠ []
  methodChars : ∀ c ∈ method, 0x20 < c.toNat ∧ c.toNat < 0x7f ∧ c ≠ ':'
  notConnect : toAsciiLowercase method ≠ "connect".toList
  version_ne : version ≠ []
  versionChars : ∀ c ∈ version, isWhitespace c = false

def Request.site (request : Request) : Site := request.target.authority.site

/-- The bytes of a head with these lines. -/
def headBytes (lines : List Bytes) : Bytes := lines.flatMap (· ++ crlf) ++ crlf

def Request.head (request : Request) (uri : Text) : Bytes :=
  headBytes (utf8 (requestLine request.method uri request.version) :: request.target.lines)

/-- What the client sends. -/
def Request.wire (request : Request) : Bytes := request.head request.target.uri ++ request.body

/-- What the site is to get. -/
def Request.originForm (request : Request) : Bytes :=
  request.head request.target.originUri ++ request.body

def Flow.site (flow : Flow) : Site := (toAsciiLowercase flow.target.host.toList, flow.target.port)

/-- What a site gets of all a client sends. -/
def deliveredTo (site : Site) (sent : Bytes) : Bytes :=
  match handleClient sent with
  | .ok flow => if flow.site = site then flow.outbound else []
  | .error _ => []

/-- Every site gets the requests that name it, in origin form, and nothing else. -/
def EachToItsSite (requests : List Request) : Prop :=
  ∀ site, deliveredTo site (requests.flatMap Request.wire) =
    (requests.filter (·.site = site)).flatMap Request.originForm

/-- The target is one the inbound takes for what it is. -/
def Target.ReadAsMeant : Target → Prop
  | .absolute target => target.scheme = "http".toList ∧ (target.path = [] → target.query = none)
  | .origin target => target.host.name = "Host".toList ∨ target.host.name = "host".toList

structure Request.ReadAsMeant (request : Request) : Prop where
  first : ∀ b ∈ (utf8 request.method).head?, b ∈ httpFirstBytes
  short : (request.head request.target.uri).length ≤ 65536
  isText : ∀ line ∈ request.target.lines, ∃ text, utf8 text = line
  port : request.target.authority.port ≠ some []
  target : request.target.ReadAsMeant

def Request.isOrigin (request : Request) : Prop := ∃ target, request.target = .origin target

/-! ## The end of the head -/

/-- The empty line stands at the end of a head only. -/
theorem headBytes_ends {lines : List Bytes} (h : ∀ line ∈ lines, line ≠ [] ∧ ∀ b ∈ line, b ≠ 13 ∧ b ≠ 10)
    {as bs : Bytes} (hends : headBytes lines = as ++ 13 :: 10 :: 13 :: 10 :: bs) : bs = [] := by
  induction lines generalizing as with
  | nil =>
    have hlen := congrArg List.length hends
    simp [headBytes, crlf] at hlen
    omega
  | cons line lines ih =>
    obtain ⟨⟨hne,hline⟩,hlines⟩ := List.forall_mem_cons.mp h
    have hcons : headBytes (line :: lines) = line ++ 13 :: 10 :: headBytes lines := by
      simp [headBytes, crlf]
    rw [hcons] at hends
    -- no carriage return stands in the line, so it is all in front of the empty one
    obtain ⟨as',rfl⟩ : line <+: as := by
      rcases List.append_eq_append_iff.mp hends with ⟨as',rfl,-⟩ | ⟨line',rfl,hrest⟩
      · exact List.prefix_append _ _
      · cases line' with
        | nil => simp
        | cons b line' =>
          obtain ⟨rfl,-⟩ := List.cons.inj hrest
          exact absurd rfl (hline 13 (by simp)).1
    rw [List.append_assoc, List.append_cancel_left_eq] at hends
    match as', hends with
    | [], hends =>
      have hrest : headBytes lines = 13 :: 10 :: bs := (List.cons.inj (List.cons.inj hends).2).2
      cases lines with
      | nil => exact (List.cons.inj (List.cons.inj hrest).2).2.symm
      | cons next lines =>
        obtain ⟨⟨hnext,hchars⟩,-⟩ := List.forall_mem_cons.mp hlines
        obtain ⟨b,next,rfl⟩ := List.exists_cons_of_ne_nil hnext
        have hb : b = 13 := by simpa [headBytes] using congrArg List.head? hrest
        exact absurd hb (hchars b List.mem_cons_self).1
    | [b], hends => simp at hends
    | b :: c :: as', hends => exact ih hlines (List.cons.inj (List.cons.inj hends).2).2

theorem headBytes_empty_line {lines : List Bytes} (h : lines ≠ []) :
    [13, 10, 13, 10] <:+ headBytes lines := by
  obtain ⟨front,last,rfl⟩ := (List.eq_nil_or_concat lines).resolve_left h
  exact ⟨front.flatMap (· ++ crlf) ++ last,by simp [headBytes, crlf]⟩

/-- The head is read to its end if it is not too long. -/
theorem readHttpHead_head {lines : List Bytes} (hlines : lines ≠ [])
    (h : ∀ line ∈ lines, line ≠ [] ∧ ∀ b ∈ line, b ≠ 13 ∧ b ≠ 10) (client : Bytes)
    {buffer more : Bytes} (hmore : more ≠ []) (hhead : headBytes lines = buffer ++ more) :
    readHttpHead buffer (more ++ client) =
      if (headBytes lines).length ≤ 65536 then .ok (headBytes lines, client)
      else .error .headerTooLarge := by
  induction more generalizing buffer with
  | nil => exact absurd rfl hmore
  | cons b more ih =>
    have happend : headBytes lines = buffer ++ [b] ++ more := by rw [hhead, List.append_cons]
    have hlen : (headBytes lines).length = buffer.length + 1 + more.length := by
      rw [happend]
      simp only [List.length_append, List.length_cons, List.length_nil]
    rw [List.cons_append, readHttpHead]
    dsimp only
    by_cases hroom : buffer.length < 65536
    · rw [if_pos hroom]
      cases more with
      | nil =>
        rw [List.append_nil] at happend
        have hends := List.isSuffixOf_iff_suffix.mpr (headBytes_empty_line hlines)
        have hshort : (headBytes lines).length ≤ 65536 := by
          rw [hlen]
          exact hroom
        rw [← happend, if_pos hends, if_pos hshort, List.nil_append]
      | cons c more =>
        have hgoes : ¬ ([13, 10, 13, 10].isSuffixOf (buffer ++ [b]) = true) := by
          intro hends
          obtain ⟨as,has⟩ := List.isSuffixOf_iff_suffix.mp hends
          have hsplit : headBytes lines = as ++ 13 :: 10 :: 13 :: 10 :: (c :: more) := by
            simp [happend, ← has]
          have hrest := headBytes_ends h hsplit
          cases hrest
        rw [if_neg hgoes]
        exact ih (List.cons_ne_nil _ _) happend
    · have hlong : ¬ (headBytes lines).length ≤ 65536 := by omega
      rw [if_neg hroom, if_neg hlong]

/-! ## The text of the head -/

def headText (lines : List Text) : Text := lines.flatMap (· ++ ['\r', '\n']) ++ ['\r', '\n']

theorem headBytes_utf8 (lines : List Text) : headBytes (lines.map utf8) = utf8 (headText lines) := by
  have hcrlf : utf8 ['\r', '\n'] = crlf := by decide
  have hline : ∀ line : Text, utf8 line ++ crlf = utf8 (line ++ ['\r', '\n']) := fun line => by
    rw [utf8_append, hcrlf]
  induction lines with
  | nil => exact hcrlf.symm
  | cons line lines ih =>
    rw [headBytes, headText, utf8_append, hcrlf] at ih
    have hrest := List.append_cancel_right ih
    rw [headBytes, headText, utf8_append, hcrlf, List.map_cons, List.flatMap_cons, List.flatMap_cons,
      hrest, hline, ← utf8_append]

/-- A head that is text consists of lines that are. -/
theorem headBytes_text {lines : List Bytes} {text : Text} (h : utf8 text = headBytes lines) :
    ∃ texts : List Text, lines = texts.map utf8 := by
  induction lines generalizing text with
  | nil => exact ⟨[],rfl⟩
  | cons line lines ih =>
    have hcons : headBytes (line :: lines) = line ++ 13 :: 10 :: headBytes lines := by
      simp [headBytes, crlf]
    rw [hcons] at h
    obtain ⟨before,after,-,rfl,hafter⟩ := utf8_split_crlf h
    obtain ⟨texts,rfl⟩ := ih hafter
    exact ⟨before :: texts,rfl⟩

theorem splitCrlf_headText {lines : List Text} (h : ∀ line ∈ lines, '\r' ∉ line) :
    splitCrlf (headText lines) = lines ++ [[], []] := by
  induction lines with
  | nil => rfl
  | cons line lines ih =>
    obtain ⟨hline,hlines⟩ := List.forall_mem_cons.mp h
    have hcons : headText (line :: lines) = line ++ '\r' :: '\n' :: headText lines := by
      simp [headText]
    rw [hcons, splitCrlf_line hline, ih hlines]
    rfl

theorem splitWhitespace_word {word : Text} (hne : word ≠ []) (h : ∀ c ∈ word, isWhitespace c = false)
    (rest : Text) : splitWhitespace (word ++ ' ' :: rest) = word :: splitWhitespace rest := by
  rw [splitWhitespace, List.splitOnP_append_cons_of_forall_mem h ' ' (by decide), List.filter_cons_of_pos (by simpa)]
  rfl

theorem splitWhitespace_last {word : Text} (hne : word ≠ []) (h : ∀ c ∈ word, isWhitespace c = false) :
    splitWhitespace word = [word] := by
  rw [splitWhitespace, List.splitOnP_eq_singleton h, List.filter_cons_of_pos (by simpa)]
  rfl

/-! ## Hosts and ports -/

theorem digit_plain {c : Char} (h : (digitValue c).isSome) :
    isWhitespace c = false ∧ c ∉ ":/?#[]@".toList := by
  constructor
  · rw [digitValue] at h
    split_ifs at h with hc
    · have hlow : 48 ≤ c.toNat := hc.1
      have hhigh : c.toNat ≤ 57 := hc.2
      simp [isWhitespace]
      omega
    · cases h
  · intro hmem
    have hnone : ∀ d ∈ ":/?#[]@".toList, digitValue d = none := forall_mem_of_all (by decide)
    rw [hnone c hmem] at h
    cases h

theorem Authority.text_plain (authority : Authority) :
    ∀ c ∈ authority.text, isWhitespace c = false ∧ c ≠ '/' := by
  intro c hc
  have hbrackets : ∀ d ∈ ['[', ']', ':'], isWhitespace d = false ∧ d ≠ '/' :=
    forall_mem_of_all (by decide)
  have hhost : ∀ d ∈ authority.host, isWhitespace d = false ∧ d ≠ '/' := fun d hd =>
    ⟨(authority.hostChars d hd).1,fun heq => (authority.hostChars d hd).2.1 (heq ▸ by decide)⟩
  rw [Authority.text, List.mem_append] at hc
  rcases hc with hc | hc
  · split_ifs at hc
    · simp only [List.cons_append, List.mem_cons, List.mem_append, List.not_mem_nil, or_false] at hc
      rcases hc with rfl | hc | rfl
      · exact hbrackets _ (by simp)
      · exact hhost c hc
      · exact hbrackets _ (by simp)
    · exact hhost c hc
  · cases hport : authority.port with
    | none => simp [hport] at hc
    | some digits =>
      rw [hport] at hc
      rcases List.mem_cons.mp hc with rfl | hc
      · exact hbrackets _ (by simp)
      · have hdigit := digit_plain ((authority.digits digits hport).1 c hc)
        exact ⟨hdigit.1,fun heq => hdigit.2 (heq ▸ by decide)⟩

def Authority.address (authority : Authority) : TargetAddress :=
  ⟨String.ofList authority.host, authority.portNumber⟩

theorem Authority.parsePort_digits {authority : Authority} {digits : Text}
    (h : authority.port = some digits) :
    ((parsePort digits).map fun port => (⟨String.ofList authority.host, port⟩ : TargetAddress)) =
      if authority.port = some [] then .error (.invalidPort []) else .ok authority.address := by
  by_cases hempty : digits = []
  · subst hempty
    rw [if_pos h]
    rfl
  · obtain ⟨n,hn⟩ := Option.isSome_iff_exists.mp ((authority.digits digits h).2 hempty)
    have hport : authority.portNumber = UInt16.ofNat n := by simp [Authority.portNumber, h, hn]
    rw [if_neg (by simpa [h] using hempty), parsePort, hn, Authority.address, hport]
    rfl

/-- A host with its port is read as what it is, but an empty port is refused. -/
theorem Authority.parse_text (authority : Authority) :
    parseHostPort authority.text 80 = if authority.port = some [] then .error (.invalidPort [])
      else .ok authority.address := by
  have hbracket : ']' ∉ authority.host := fun hmem =>
    (authority.hostChars _ hmem).2.1 (by decide)
  have hdigits : ∀ digits ∈ authority.port, ':' ∉ digits := fun digits h hmem =>
    (digit_plain ((authority.digits digits h).1 _ hmem)).2 (by decide)
  cases hb : authority.bracketed with
  | true =>
    have htext : authority.text = ['['] ++ (authority.host ++ ']' :: authority.port.elim [] (':' :: ·)) := by
      simp [Authority.text, hb]
    rw [htext, parseHostPort, stripPrefix_append]
    dsimp only
    rw [splitOnce_first hbracket]
    dsimp only
    cases hport : authority.port with
    | none => simp [stripPrefix, Authority.address, Authority.portNumber, hport]
    | some digits =>
      have hcolon : stripPrefix [':'] (':' :: digits) = some digits := stripPrefix_append [':'] digits
      rw [Option.elim_some, hcolon]
      dsimp only
      rw [Authority.parsePort_digits hport, hport]
  | false =>
    have hcolon : ':' ∉ authority.host := fun hmem => by
      have htrue := (authority.hostChars _ hmem).2.2 rfl
      rw [hb] at htrue
      cases htrue
    have htext : authority.text = authority.host ++ authority.port.elim [] (':' :: ·) := by
      simp [Authority.text, hb]
    have hopen : ¬ ['['] <+: authority.text := by
      rintro ⟨rest,hrest⟩
      rw [htext] at hrest
      cases hhost : authority.host with
      | nil => cases hport : authority.port <;> simp [hhost, hport] at hrest
      | cons c cs =>
        rw [hhost] at hrest
        obtain ⟨rfl,-⟩ := List.cons.inj hrest
        exact (authority.hostChars '[' (by simp [hhost])).2.1 (by decide)
    rw [parseHostPort, stripPrefix_none hopen]
    dsimp only
    rw [htext]
    cases hport : authority.port with
    | none =>
      rw [Option.elim_none, List.append_nil, rsplitOnce_none hcolon]
      simp [Authority.address, Authority.portNumber, hport]
    | some digits =>
      rw [Option.elim_some, rsplitOnce_last (hdigits digits hport)]
      dsimp only
      rw [if_neg hcolon, Authority.parsePort_digits hport, hport]

/-! ## Targets -/

theorem splitAuthorityPath_slash {authority path : Text} (h : ∀ c ∈ authority, c ≠ '/') :
    splitAuthorityPath (authority ++ '/' :: path) = (authority, '/' :: path) := by
  have hall : ∀ c ∈ authority, decide (c ≠ '/') = true := by simpa using h
  rw [splitAuthorityPath, List.dropWhile_append_of_pos hall, List.takeWhile_append_of_pos hall]
  simp

theorem splitAuthorityPath_none {authority : Text} (h : ∀ c ∈ authority, c ≠ '/') :
    splitAuthorityPath authority = (authority, ['/']) := by
  have hnone : authority.dropWhile (· ≠ '/') = [] := List.dropWhile_eq_nil_iff.mpr (by simpa using h)
  rw [splitAuthorityPath, hnone]

/-- The path is a slash, or an end of the text from a slash on. -/
theorem splitAuthorityPath_path {authority : Text} (h : ∀ c ∈ authority, c ≠ '/') (rest : Text) :
    (splitAuthorityPath (authority ++ rest)).2 = ['/'] ∨
      (splitAuthorityPath (authority ++ rest)).2 <:+ rest := by
  have hall : ∀ c ∈ authority, decide (c ≠ '/') = true := by simpa using h
  rw [splitAuthorityPath, List.dropWhile_append_of_pos hall]
  split
  · exact .inl rfl
  · exact .inr (List.dropWhile_suffix _)

theorem isWhitespace_toLower {c : Char} (h : isWhitespace c = true) : c.toLower = c := by
  apply toLower_of_not_upper
  rintro ⟨hlow,hhigh⟩
  simp [isWhitespace] at h
  omega

theorem lower_plain {text lower : Text} (h : toAsciiLowercase text = lower)
    (hlower : ∀ c ∈ lower, isWhitespace c = false) : ∀ c ∈ text, isWhitespace c = false := by
  intro c hc
  by_contra hwhite
  have hsame := isWhitespace_toLower (eq_true_of_ne_false hwhite)
  have hmem : c.toLower ∈ lower := h ▸ List.mem_map_of_mem hc
  rw [hsame] at hmem
  exact hwhite (hlower c hmem)

theorem Target.uri_plain (target : Target) : ∀ c ∈ target.uri, isWhitespace c = false := by
  cases target with
  | origin target => exact target.uriChars
  | absolute target =>
    intro c hc
    simp only [Target.uri, List.mem_append] at hc
    rcases hc with (((hc | hc) | hc) | hc) | hc
    · exact lower_plain target.isHttp (forall_mem_of_all (by decide)) c hc
    · have hsep : ∀ d ∈ "://".toList, isWhitespace d = false := forall_mem_of_all (by decide)
      exact hsep c hc
    · exact (target.authority.text_plain c hc).1
    · exact target.pathChars c hc
    · rw [AbsoluteTarget.queryText] at hc
      cases hquery : target.query with
      | none => simp [hquery] at hc
      | some text =>
        rw [hquery] at hc
        rcases List.mem_cons.mp hc with rfl | hc
        · decide
        · exact target.queryChars text hquery c hc

theorem Target.originUri_plain (target : Target) : ∀ c ∈ target.originUri, isWhitespace c = false := by
  cases target with
  | origin target => exact target.uriChars
  | absolute target =>
    intro c hc
    have huri : ∀ d ∈ target.path ++ target.queryText, isWhitespace d = false := by
      intro d hd
      apply (Target.absolute target).uri_plain
      rw [Target.uri, List.append_assoc]
      exact List.mem_append_right _ hd
    rw [Target.originUri] at hc
    split_ifs at hc with hpath
    · rcases List.mem_cons.mp hc with rfl | hc
      · decide
      · exact huri c (List.mem_append_right _ hc)
    · exact huri c hc

theorem Target.originUri_front (target : AbsoluteTarget) :
    ∃ rest, (Target.absolute target).originUri = '/' :: rest := by
  rcases target.pathFront with hpath | hpath
  · exact ⟨target.queryText,by simp [Target.originUri, hpath]⟩
  · obtain ⟨rest,hrest⟩ := List.head?_eq_some_iff.mp hpath
    exact ⟨rest ++ target.queryText,by simp [Target.originUri, hrest]⟩

theorem map_target {result : Result TargetAddress} {address : TargetAddress} {uri uri' : Text}
    (h : (result.map fun target => (target, uri)) = .ok (address, uri')) :
    result = .ok address ∧ uri = uri' := by
  cases result with
  | error e => cases h
  | ok target =>
    obtain ⟨rfl,rfl⟩ := Prod.mk.inj (Except.ok.inj h)
    exact ⟨rfl,rfl⟩

theorem Target.absolute_uri {target : AbsoluteTarget} (h : target.scheme = "http".toList) :
    (Target.absolute target).uri =
      "http://".toList ++ (target.authority.text ++ (target.path ++ target.queryText)) := by
  simp [Target.uri, h]

theorem AbsoluteTarget.no_slash (target : AbsoluteTarget) : ∀ c ∈ target.authority.text, c ≠ '/' :=
  fun c hc => (target.authority.text_plain c hc).2

theorem parse_absolute_meant {target : AbsoluteTarget} (hscheme : target.scheme = "http".toList)
    (hmeant : target.path = [] → target.query = none) (request : Text) (address : TargetAddress) :
    parseHttpForwardTarget (Target.absolute target).uri request =
        .ok (address, (Target.absolute target).originUri) ↔
      target.authority.port ≠ some [] ∧ address = target.authority.address := by
  have hsplit : splitAuthorityPath (target.authority.text ++ (target.path ++ target.queryText)) =
      (target.authority.text, (Target.absolute target).originUri) := by
    rcases target.pathFront with hpath | hpath
    · have hquery : target.queryText = [] := by simp [AbsoluteTarget.queryText, hmeant hpath]
      simp [Target.originUri, hpath, hquery, splitAuthorityPath_none target.no_slash]
    · obtain ⟨path,hpath⟩ := List.head?_eq_some_iff.mp hpath
      simp [Target.originUri, hpath, splitAuthorityPath_slash target.no_slash]
  rw [Target.absolute_uri hscheme, parseHttpForwardTarget, stripPrefix_append]
  dsimp only
  rw [hsplit, Authority.parse_text]
  dsimp only
  by_cases hport : target.authority.port = some []
  · simp [hport, Except.map]
  · rw [if_neg hport]
    constructor
    · intro hok
      exact ⟨hport,(Except.ok.inj (map_target hok).1).symm⟩
    · rintro ⟨-,rfl⟩
      rfl

/-- Without a path the query is taken for a part of the host. -/
theorem parse_absolute_query {target : AbsoluteTarget} (hscheme : target.scheme = "http".toList)
    (hmeant : ¬ (target.path = [] → target.query = none)) (request : Text) (address : TargetAddress) :
    parseHttpForwardTarget (Target.absolute target).uri request ≠
      .ok (address, (Target.absolute target).originUri) := by
  obtain ⟨hpath,hquery⟩ := Classical.not_imp.mp hmeant
  obtain ⟨text,htext⟩ := Option.ne_none_iff_exists'.mp hquery
  have hwhole : (Target.absolute target).originUri = '/' :: '?' :: text := by
    simp [Target.originUri, AbsoluteTarget.queryText, hpath, htext]
  have hquery : target.path ++ target.queryText = '?' :: text := by
    simp [AbsoluteTarget.queryText, hpath, htext]
  rw [Target.absolute_uri hscheme, parseHttpForwardTarget, stripPrefix_append]
  dsimp only
  intro hok
  have hpart := (map_target hok).2
  rw [hwhole, hquery] at hpart
  rcases splitAuthorityPath_path target.no_slash ('?' :: text) with hpath' | hpath'
  · rw [hpath'] at hpart
    simp at hpart
  · rw [hpart] at hpath'
    have hle := hpath'.length_le
    simp only [List.length_cons] at hle
    omega

/-- With the scheme in capitals the URI is left as it is, and starts with a letter. -/
theorem parse_absolute_scheme {target : AbsoluteTarget} (hscheme : target.scheme ≠ "http".toList)
    (request : Text) (address : TargetAddress) :
    parseHttpForwardTarget (Target.absolute target).uri request ≠
      .ok (address, (Target.absolute target).originUri) := by
  obtain ⟨rest,hrest⟩ := Target.originUri_front target
  have hlen : target.scheme.length = 4 := by
    have hlower := congrArg List.length target.isHttp
    rwa [toAsciiLowercase, List.length_map] at hlower
  have hother : ¬ "http://".toList <+: (Target.absolute target).uri := by
    rintro ⟨tail,htail⟩
    have hfour := congrArg (List.take 4) htail
    simp only [Target.uri, List.append_assoc] at hfour
    rw [List.take_append_of_le_length (by decide), List.take_left' hlen] at hfour
    exact hscheme hfour.symm
  rw [parseHttpForwardTarget, stripPrefix_none hother]
  dsimp only
  split
  · exact fun hok => by cases hok
  · intro hok
    have hsame := (map_target hok).2
    obtain ⟨c,cs,hc⟩ := List.exists_cons_of_length_pos (l := target.scheme) (by omega)
    rw [hrest] at hsame
    simp only [Target.uri, hc, List.cons_append, List.cons.injEq] at hsame
    have hlower := target.isHttp
    rw [hc, hsame.1] at hlower
    exact absurd (List.cons.inj hlower).1 (by decide)

/-- An absolute URI is turned into the one the site is to be asked for exactly if it is
read as meant. -/
theorem parse_absolute_iff (target : AbsoluteTarget) (request : Text) (address : TargetAddress) :
    parseHttpForwardTarget (Target.absolute target).uri request =
        .ok (address, (Target.absolute target).originUri) ↔
      target.authority.port ≠ some [] ∧ (Target.absolute target).ReadAsMeant ∧
        address = target.authority.address := by
  by_cases hscheme : target.scheme = "http".toList
  · by_cases hmeant : target.path = [] → target.query = none
    · rw [parse_absolute_meant hscheme hmeant]
      exact and_congr_right fun _ => (and_iff_right ⟨hscheme,hmeant⟩).symm
    · exact iff_of_false (parse_absolute_query hscheme hmeant request address) fun h => hmeant h.2.1.2
  · exact iff_of_false (parse_absolute_scheme hscheme request address) fun h => hscheme h.2.1.1

/-! ## Host lines -/

theorem hostValue_none {line : Text} (h : ¬ "Host:".toList <+: line) (h' : ¬ "host:".toList <+: line) :
    hostValue line = none := by
  rw [hostValue, stripPrefix_none h, stripPrefix_none h']
  rfl

/-- A line that is taken for a host line is one. -/
theorem FieldLine.hostValue_none {line : FieldLine} (h : ¬ line.IsHost) {text : Text}
    (htext : utf8 text = line.bytes) : hostValue text = none := by
  have hname : ∀ name, toAsciiLowercase name = "host".toList → ¬ name ++ [':'] <+: text := by
    rintro name hname ⟨rest,rfl⟩
    exact h ⟨name,hname,utf8 rest,by rw [← utf8_append, htext]⟩
  exact HttpProxy.hostValue_none (hname "Host".toList (by decide)) (hname "host".toList (by decide))

theorem hostValue_requestLine {method : Text} (h : ':' ∉ method) (uri version : Text) :
    hostValue (requestLine method uri version) = none := by
  have hcolon : ∀ name : Text, ' ' ∉ name → ¬ name ++ [':'] <+: requestLine method uri version := by
    rintro name hname ⟨rest,hrest⟩
    rw [requestLine, List.append_assoc, List.append_assoc] at hrest
    rcases List.append_eq_append_iff.mp hrest with ⟨more,hmethod,hmore⟩ | ⟨more,hmethod,hmore⟩
    · cases more with
      | nil => cases hmore
      | cons c more =>
        obtain ⟨rfl,-⟩ := List.cons.inj hmore
        exact h (by simp [hmethod])
    · cases more with
      | nil => cases hmore
      | cons c more =>
        obtain ⟨rfl,-⟩ := List.cons.inj hmore
        exact hname (by simp [hmethod])
  exact hostValue_none (hcolon "Host".toList (by decide)) (hcolon "host".toList (by decide))

theorem HostLine.blanks_white (line : HostLine) :
    ∀ c ∈ line.left ++ line.right, isWhitespace c = true ∧ c ≠ '\r' ∧ c ≠ '\n' := by
  intro c hc
  rcases line.blanks c hc with rfl | rfl <;> decide

theorem HostLine.name_length (line : HostLine) : line.name.length = 4 := by
  have hlower := congrArg List.length line.isHost
  rwa [toAsciiLowercase, List.length_map] at hlower

/-- The name is taken in two spellings. -/
theorem HostLine.hostValue_text (line : HostLine) :
    hostValue line.text = if line.name = "Host".toList ∨ line.name = "host".toList
      then some (line.left ++ line.authority.text ++ line.right) else none := by
  have hcons : line.text = line.name ++ [':'] ++ (line.left ++ line.authority.text ++ line.right) := by
    simp [HostLine.text]
  by_cases hname : line.name = "Host".toList ∨ line.name = "host".toList
  · rw [if_pos hname, hostValue, hcons]
    rcases hname with hname | hname <;> rw [hname]
    · have hstrip := stripPrefix_append "Host:".toList (line.left ++ line.authority.text ++ line.right)
      change (stripPrefix "Host:".toList ("Host:".toList ++ _)).or _ = _
      rw [hstrip]
      rfl
    · have hstrip := stripPrefix_append "host:".toList (line.left ++ line.authority.text ++ line.right)
      change (stripPrefix _ ("host:".toList ++ _)).or (stripPrefix "host:".toList ("host:".toList ++ _)) = _
      rw [hstrip, stripPrefix_none]
      · rfl
      · rintro ⟨rest,hrest⟩
        cases hrest
  · rw [if_neg hname]
    have hfour : ∀ name : Text, name.length = 4 → name ++ [':'] <+: line.text → line.name = name := by
      rintro name hlen ⟨rest,hrest⟩
      rw [hcons, List.append_assoc, List.append_assoc] at hrest
      exact (List.append_inj_left hrest (hlen.trans line.name_length.symm)).symm
    exact hostValue_none (fun h => hname (.inl (hfour _ rfl h))) (fun h => hname (.inr (hfour _ rfl h)))

theorem trim_blanks {left right text : Text} (hleft : ∀ c ∈ left, isWhitespace c = true)
    (hright : ∀ c ∈ right, isWhitespace c = true) (htext : ∀ c ∈ text, isWhitespace c = false) :
    trim (left ++ text ++ right) = text := by
  have hfront : trim (left ++ text ++ right) = trim (text ++ right) := by
    rw [trim, trim, List.append_assoc, List.dropWhile_append_of_pos hleft]
  rw [hfront, trim_append htext hright]

theorem findSome_hostValue_none {lines : List FieldLine} (h : ∀ line ∈ lines, ¬ line.IsHost)
    {texts : List Text} (htexts : texts.map utf8 = lines.map FieldLine.bytes) :
    texts.findSome? hostValue = none := by
  rw [List.findSome?_eq_none_iff]
  intro text htext
  have hmem : utf8 text ∈ lines.map FieldLine.bytes := htexts ▸ List.mem_map_of_mem htext
  obtain ⟨line,hline,hbytes⟩ := List.mem_map.mp hmem
  exact FieldLine.hostValue_none (h line hline) hbytes.symm

/-- Only the host line decides where a request in origin form goes. -/
theorem OriginTarget.findSome_hostValue (target : OriginTarget) {texts : List Text}
    (htexts : (Target.origin target).lines = texts.map utf8) :
    (texts ++ [[], []]).findSome? hostValue = hostValue target.host.text := by
  obtain ⟨before,rest,rfl,hbefore,hrest⟩ := List.map_eq_append_iff.mp htexts.symm
  obtain ⟨host,after,rfl,hhost,hafter⟩ := List.map_eq_cons_iff.mp hrest
  obtain rfl := utf8_injective hhost
  have hfront := findSome_hostValue_none
    (fun line hline => target.oneHost line (List.mem_append_left _ hline)) hbefore
  have hback := findSome_hostValue_none
    (fun line hline => target.oneHost line (List.mem_append_right _ hline)) hafter
  have hempty : [[], []].findSome? hostValue = none := by decide
  rw [List.findSome?_append, List.findSome?_append, List.findSome?_cons, hfront, hback, hempty]
  cases hostValue target.host.text <;> rfl

theorem parse_origin_iff (target : OriginTarget) {texts : List Text}
    (htexts : (Target.origin target).lines = texts.map utf8) {line : Text} (hline : hostValue line = none)
    {request : Text} (hrequest : splitCrlf request = line :: texts ++ [[], []]) (address : TargetAddress) :
    parseHttpForwardTarget (Target.origin target).uri request =
        .ok (address, (Target.origin target).originUri) ↔
      target.host.authority.port ≠ some [] ∧ (Target.origin target).ReadAsMeant ∧
        address = target.host.authority.address := by
  have hother : ¬ "http://".toList <+: target.uri := by
    rintro ⟨rest,hrest⟩
    rcases target.uriFront with huri | huri
    · rw [huri] at hrest
      cases hrest
    · rw [← hrest] at huri
      cases huri
  have hfind : (splitCrlf request).findSome? hostValue = hostValue target.host.text := by
    rw [hrequest, List.cons_append, List.findSome?_cons, hline, target.findSome_hostValue htexts]
  rw [Target.uri, parseHttpForwardTarget, stripPrefix_none hother]
  dsimp only
  rw [hfind, HostLine.hostValue_text]
  by_cases hname : target.host.name = "Host".toList ∨ target.host.name = "host".toList
  · have htrim := trim_blanks (fun c hc => (target.host.blanks_white c (List.mem_append_left _ hc)).1)
      (fun c hc => (target.host.blanks_white c (List.mem_append_right _ hc)).1)
      (fun c hc => (target.host.authority.text_plain c hc).1)
    rw [if_pos hname]
    dsimp only
    rw [htrim, Authority.parse_text]
    by_cases hport : target.host.authority.port = some []
    · simp [hport, Except.map]
    · rw [if_neg hport]
      constructor
      · intro hok
        exact ⟨hport,hname,(Except.ok.inj (map_target hok).1).symm⟩
      · rintro ⟨-,-,rfl⟩
        rfl
  · rw [if_neg hname]
    exact iff_of_false (fun h => by cases h) fun h => hname h.2.1

/-! ## One request -/

theorem notMem_utf8_crlf {text : Text} (h : ∀ c ∈ text, c ≠ '\r' ∧ c ≠ '\n') :
    ∀ b ∈ utf8 text, b ≠ 13 ∧ b ≠ 10 := by
  intro b hb
  constructor
  · rintro rfl
    exact notMem_utf8 (c := '\r') (by decide) (fun hc => (h _ hc).1 rfl) hb
  · rintro rfl
    exact notMem_utf8 (c := '\n') (by decide) (fun hc => (h _ hc).2 rfl) hb

theorem plain_crlf {c : Char} (h : isWhitespace c = false) : c ≠ '\r' ∧ c ≠ '\n' := by
  constructor <;> rintro rfl <;> cases h

theorem utf8_ne_nil {text : Text} (h : text ≠ []) : utf8 text ≠ [] := by
  intro hempty
  exact h (@utf8_injective _ [] hempty)

theorem HostLine.text_crlf (line : HostLine) : ∀ c ∈ line.text, c ≠ '\r' ∧ c ≠ '\n' := by
  intro c hc
  simp only [HostLine.text, List.mem_append, List.mem_cons] at hc
  have hblanks := fun h => (line.blanks_white c h).2
  rcases hc with ((hc | rfl | hc) | hc) | hc
  · exact plain_crlf (lower_plain line.isHost (forall_mem_of_all (by decide)) c hc)
  · decide
  · exact hblanks (List.mem_append_left _ hc)
  · exact plain_crlf (line.authority.text_plain c hc).1
  · exact hblanks (List.mem_append_right _ hc)

theorem Target.lines_plain (target : Target) :
    ∀ line ∈ target.lines, line ≠ [] ∧ ∀ b ∈ line, b ≠ 13 ∧ b ≠ 10 := by
  have hfields : ∀ (lines : List FieldLine), ∀ bytes ∈ lines.map FieldLine.bytes,
      bytes ≠ [] ∧ ∀ b ∈ bytes, b ≠ 13 ∧ b ≠ 10 := by
    intro lines bytes hbytes
    obtain ⟨line,-,rfl⟩ := List.mem_map.mp hbytes
    exact ⟨line.ne,line.oneLine⟩
  intro line hline
  cases target with
  | absolute target => exact hfields target.lines line hline
  | origin target =>
    rcases List.mem_append.mp hline with hline | hline
    · exact hfields _ line hline
    · rcases List.mem_cons.mp hline with rfl | hline
      · exact ⟨utf8_ne_nil (by simp [HostLine.text]),notMem_utf8_crlf target.host.text_crlf⟩
      · exact hfields _ line hline

theorem Request.method_plain (request : Request) : ∀ c ∈ request.method, isWhitespace c = false := by
  intro c hc
  have hrange := request.methodChars c hc
  simp [isWhitespace]
  omega

/-- The first line of a request, with the URI as it is or as it should be. -/
theorem Request.firstLine_plain (request : Request) {uri : Text}
    (huri : ∀ c ∈ uri, isWhitespace c = false) :
    ∀ c ∈ requestLine request.method uri request.version, c ≠ '\r' ∧ c ≠ '\n' := by
  intro c hc
  simp only [requestLine, List.mem_append, List.mem_cons] at hc
  rcases hc with (hc | rfl | hc) | rfl | hc
  · exact plain_crlf (request.method_plain c hc)
  · decide
  · exact plain_crlf (huri c hc)
  · decide
  · exact plain_crlf (request.versionChars c hc)

/-- The head of a request is found where it ends. -/
theorem Request.readHttpHead_wire (request : Request) (client : Bytes) {first : UInt8} {more : Bytes}
    (hhead : request.head request.target.uri = first :: more) :
    readHttpHead [first] (more ++ client) =
      if (request.head request.target.uri).length ≤ 65536
        then .ok (request.head request.target.uri, client) else .error .headerTooLarge := by
  have hlines : ∀ line ∈ utf8 (requestLine request.method request.target.uri request.version) ::
      request.target.lines, line ≠ [] ∧ ∀ b ∈ line, b ≠ 13 ∧ b ≠ 10 := by
    intro line hline
    rcases List.mem_cons.mp hline with rfl | hline
    · exact ⟨utf8_ne_nil (by simp [requestLine]),
        notMem_utf8_crlf (request.firstLine_plain request.target.uri_plain)⟩
    · exact request.target.lines_plain line hline
  apply readHttpHead_head (List.cons_ne_nil _ _) hlines client
  · rintro rfl
    have hlen := congrArg List.length hhead
    simp [Request.head, headBytes, crlf] at hlen
    omega
  · exact hhead

theorem Request.head_text (request : Request) {texts : List Text}
    (htexts : request.target.lines = texts.map utf8) (uri : Text) :
    request.head uri = utf8 (headText (requestLine request.method uri request.version :: texts)) := by
  rw [Request.head, htexts, ← headBytes_utf8]
  rfl

/-- The lines of the text of a head. -/
theorem Request.splitCrlf_head (request : Request) {texts : List Text}
    (htexts : request.target.lines = texts.map utf8) :
    splitCrlf (headText (requestLine request.method request.target.uri request.version :: texts)) =
      requestLine request.method request.target.uri request.version :: texts ++ [[], []] := by
  apply splitCrlf_headText
  intro line hline hmem
  rcases List.mem_cons.mp hline with rfl | hline
  · exact (request.firstLine_plain request.target.uri_plain _ hmem).1 rfl
  · have hbytes : utf8 line ∈ request.target.lines := htexts ▸ List.mem_map_of_mem hline
    have hcr : (13 : UInt8) ∈ utf8 line := List.mem_flatMap.mpr ⟨'\r',hmem,by decide⟩
    exact ((request.target.lines_plain _ hbytes).2 13 hcr).1 rfl

theorem Target.uri_ne (target : Target) : target.uri ≠ [] := by
  cases target with
  | absolute target => simp [Target.uri]
  | origin target =>
    rcases target.uriFront with huri | huri
    · simp [Target.uri, huri]
    · intro hempty
      rw [Target.uri] at hempty
      rw [hempty] at huri
      cases huri

theorem Request.splitWhitespace_firstLine (request : Request) :
    splitWhitespace (requestLine request.method request.target.uri request.version) =
      [request.method, request.target.uri, request.version] := by
  rw [requestLine, List.append_assoc, List.cons_append,
    splitWhitespace_word request.method_ne request.method_plain,
    splitWhitespace_word request.target.uri_ne request.target.uri_plain,
    splitWhitespace_last request.version_ne request.versionChars]

theorem Request.head_front (request : Request) (uri : Text) :
    ∃ rest, request.head uri = utf8 request.method ++ rest := by
  exact ⟨utf8 (' ' :: uri ++ ' ' :: request.version) ++ (crlf ++ headBytes request.target.lines),
    by simp [Request.head, requestLine, headBytes, utf8_append]⟩

theorem Request.wire_cons (request : Request) (client : Bytes) :
    ∃ first more, request.head request.target.uri = first :: more ∧
      (utf8 request.method).head? = some first ∧
      request.wire ++ client = first :: (more ++ (request.body ++ client)) := by
  obtain ⟨rest,hrest⟩ := request.head_front request.target.uri
  obtain ⟨first,method,hmethod⟩ := List.exists_cons_of_ne_nil (utf8_ne_nil request.method_ne)
  refine ⟨first,method ++ rest,by rw [hrest, hmethod]; rfl,by rw [hmethod]; rfl,?_⟩
  rw [Request.wire, hrest, hmethod]
  simp

/-- What is done with a request at the front of a connection whose head can be read. -/
theorem Request.handleClient_wire (request : Request) (client : Bytes) {texts : List Text}
    (hfirst : ∀ b ∈ (utf8 request.method).head?, b ∈ httpFirstBytes)
    (hshort : (request.head request.target.uri).length ≤ 65536)
    (htexts : request.target.lines = texts.map utf8) :
    handleClient (request.wire ++ client) =
      (parseHttpForwardTarget request.target.uri (headText
        (requestLine request.method request.target.uri request.version :: texts))).map fun r =>
          ⟨.httpForward, r.1, request.head r.2 ++ (request.body ++ client)⟩ := by
  obtain ⟨first,more,hhead,hfront,hwire⟩ := request.wire_cons client
  have htext := request.head_text htexts request.target.uri
  have hutf8 := fromUtf8_utf8 (String.ofList (headText
    (requestLine request.method request.target.uri request.version :: texts)))
  rw [String.toList_ofList, ← htext] at hutf8
  have hline : (splitCrlf (headText (requestLine request.method request.target.uri request.version ::
      texts))).headD [] = requestLine request.method request.target.uri request.version := by
    rw [request.splitCrlf_head htexts]
    rfl
  rw [hwire, handleClient, if_pos (hfirst first hfront), handleHttp,
    request.readHttpHead_wire _ hhead, if_pos hshort]
  simp only [bind, Except.bind, hutf8, String.toList_ofList, hline, request.splitWhitespace_firstLine,
    List.getD_cons_zero, List.getD_cons_succ, request.notConnect, if_false]
  cases parseHttpForwardTarget request.target.uri (headText
      (requestLine request.method request.target.uri request.version :: texts)) with
  | error e => rfl
  | ok r =>
    have hrewritten : rewriteHttpRequest (headText (requestLine request.method request.target.uri
        request.version :: texts)) request.method request.target.uri request.version r.2 =
        headText (requestLine request.method r.2 request.version :: texts) := by
      simp [rewriteHttpRequest, headText, replaceFirst_front]
    simp only [Except.map, hrewritten, ← request.head_text htexts]

/-- A connection that is taken starts with a head that can be read. -/
theorem Request.handleClient_ok (request : Request) {client : Bytes} {flow : Flow}
    (h : handleClient (request.wire ++ client) = .ok flow) :
    (∀ b ∈ (utf8 request.method).head?, b ∈ httpFirstBytes) ∧
      (request.head request.target.uri).length ≤ 65536 ∧
      ∃ texts : List Text, request.target.lines = texts.map utf8 := by
  obtain ⟨first,more,hhead,hfront,hwire⟩ := request.wire_cons client
  rw [hwire, handleClient] at h
  split_ifs at h with hfirst
  rw [handleHttp, request.readHttpHead_wire _ hhead] at h
  split_ifs at h with hshort
  · simp only [bind, Except.bind] at h
    split at h
    · cases h
    · rename_i hutf8
      refine ⟨?_,hshort,?_⟩
      · intro b hb
        rw [hfront] at hb
        exact Option.some.inj hb ▸ hfirst
      · rw [Request.head] at hutf8
        obtain ⟨texts,htexts⟩ := headBytes_text (utf8_of_fromUtf8 hutf8)
        obtain ⟨line,texts,rfl,-,hlines⟩ := List.map_eq_cons_iff.mp htexts.symm
        exact ⟨texts,hlines.symm⟩
  · cases h

theorem parse_uri {uri request : Text} {address : TargetAddress} {uri' : Text}
    (h : parseHttpForwardTarget uri request = .ok (address, uri')) :
    ∀ c ∈ uri', c = '/' ∨ c ∈ uri := by
  rw [parseHttpForwardTarget] at h
  split at h
  · next rest hrest =>
    rw [stripPrefix] at hrest
    split_ifs at hrest
    have huri := Option.some.inj hrest
    have hpath : (splitAuthorityPath rest).2 = uri' := (map_target h).2
    intro c hc
    rcases @splitAuthorityPath_path [] (by simp) rest with hslash | hrest'
    · rw [List.nil_append, hpath] at hslash
      rw [hslash] at hc
      exact .inl (List.mem_singleton.mp hc)
    · rw [List.nil_append, hpath] at hrest'
      have hmem : c ∈ rest := hrest'.subset hc
      rw [← huri] at hmem
      exact .inr (List.mem_of_mem_drop hmem)
  · split at h
    · cases h
    · obtain ⟨-,rfl⟩ := map_target h
      exact fun c hc => .inr hc

/-- A request is rewritten as it should be exactly if it is read as meant. -/
theorem Request.parse_iff (request : Request) {texts : List Text}
    (htexts : request.target.lines = texts.map utf8) (address : TargetAddress) :
    parseHttpForwardTarget request.target.uri (headText
        (requestLine request.method request.target.uri request.version :: texts)) =
          .ok (address, request.target.originUri) ↔
      request.target.authority.port ≠ some [] ∧ request.target.ReadAsMeant ∧
        address = request.target.authority.address := by
  have hcolon : ':' ∉ request.method := fun hmem => (request.methodChars _ hmem).2.2 rfl
  have hlines := request.splitCrlf_head htexts
  cases htarget : request.target with
  | absolute target => exact parse_absolute_iff target _ address
  | origin target =>
    rw [htarget] at htexts hlines
    exact parse_origin_iff target htexts (hostValue_requestLine hcolon _ _) hlines address

/-! ## The bytes of the requests behind it -/

theorem Request.head_eq (request : Request) (uri : Text) :
    request.head uri = utf8 request.method ++ 32 :: (utf8 uri ++ 32 ::
      (utf8 request.version ++ (crlf ++ headBytes request.target.lines))) := by
  have hspace : utf8 (' ' :: uri ++ ' ' :: request.version) =
      32 :: (utf8 uri ++ 32 :: utf8 request.version) := by
    rw [utf8_append]
    rfl
  rw [Request.head, requestLine, List.append_assoc, headBytes, List.flatMap_cons, utf8_append, hspace]
  simp [headBytes]

theorem Request.head_inj (request : Request) {uri uri' : Text} {as bs : Bytes}
    (huri : ∀ c ∈ uri, isWhitespace c = false) (huri' : ∀ c ∈ uri', isWhitespace c = false)
    (h : request.head uri ++ as = request.head uri' ++ bs) : uri = uri' ∧ as = bs := by
  have hblank : ∀ {uri : Text}, (∀ c ∈ uri, isWhitespace c = false) → (32 : UInt8) ∉ utf8 uri := by
    intro uri huri
    exact notMem_utf8 (c := ' ') (by decide) fun hmem => absurd (huri _ hmem) (by decide)
  have hparts := h
  rw [head_eq, head_eq, List.append_assoc, List.append_assoc, List.append_cancel_left_eq,
    List.cons_append, List.cons_append, List.cons.injEq] at hparts
  have hrest := hparts.2
  rw [List.append_assoc, List.append_assoc, List.cons_append, List.cons_append] at hrest
  obtain rfl := utf8_injective (until_eq (hblank huri) (hblank huri') hrest).1
  exact ⟨rfl,List.append_cancel_left h⟩

theorem originUri_length (target : AbsoluteTarget) :
    (utf8 (Target.absolute target).originUri).length < (utf8 (Target.absolute target).uri).length := by
  have hslashes : (utf8 "://".toList).length = 3 := by decide
  have hpath : (utf8 (if target.path = [] then ['/'] else target.path)).length ≤
      1 + (utf8 target.path).length := by
    split_ifs
    · exact Nat.le_add_right _ _
    · exact Nat.le_add_left _ _
  simp only [Target.uri, Target.originUri, utf8_append, List.length_append, hslashes]
  omega

/-- A request that stays as it is takes no fewer bytes than it should. -/
theorem Request.wire_length (request : Request) :
    request.originForm.length ≤ request.wire.length ∧
      (request.originForm.length = request.wire.length → request.isOrigin) := by
  cases htarget : request.target with
  | origin target =>
    have hsame : request.originForm = request.wire := by
      rw [Request.wire, Request.originForm, htarget]
      rfl
    exact ⟨hsame ▸ Nat.le_refl _,fun _ => ⟨target,htarget⟩⟩
  | absolute target =>
    have hlt := originUri_length target
    have hless : request.originForm.length < request.wire.length := by
      rw [Request.originForm, Request.wire, head_eq, head_eq, htarget]
      simp only [List.length_append, List.length_cons]
      omega
    exact ⟨Nat.le_of_lt hless,fun heq => absurd heq (Nat.ne_of_lt hless)⟩

theorem wires_origin {requests : List Request}
    (h : requests.flatMap Request.wire = requests.flatMap Request.originForm) :
    ∀ request ∈ requests, request.isOrigin := by
  have hle : ∀ requests : List Request,
      (requests.flatMap Request.originForm).length ≤ (requests.flatMap Request.wire).length := by
    intro requests
    induction requests with
    | nil => exact Nat.le_refl _
    | cons request requests ih =>
      rw [List.flatMap_cons, List.flatMap_cons, List.length_append, List.length_append]
      exact Nat.add_le_add request.wire_length.1 ih
  induction requests with
  | nil => simp
  | cons request requests ih =>
    rw [List.flatMap_cons, List.flatMap_cons] at h
    have hlen := congrArg List.length h
    rw [List.length_append, List.length_append] at hlen
    have hfirst := request.wire_length.1
    have hrest := hle requests
    have horigin := request.wire_length.2 (by omega)
    have hwire : request.wire = request.originForm := by
      obtain ⟨target,htarget⟩ := horigin
      rw [Request.wire, Request.originForm, htarget]
      rfl
    rw [hwire, List.append_cancel_left_eq] at h
    exact List.forall_mem_cons.mpr ⟨horigin,ih h⟩

theorem Request.originForm_ne (request : Request) : request.originForm ≠ [] := by
  simp [Request.originForm, Request.head, headBytes, crlf]

/-! ## The connection -/

theorem deliveredTo_ok {sent : Bytes} {flow : Flow} (h : handleClient sent = .ok flow) (site : Site) :
    deliveredTo site sent = if flow.site = site then flow.outbound else [] := by
  rw [deliveredTo, h]

theorem deliveredTo_ne {site : Site} {sent : Bytes} (h : deliveredTo site sent ≠ []) :
    ∃ flow, handleClient sent = .ok flow ∧ flow.site = site := by
  cases hflow : handleClient sent with
  | error e =>
    rw [deliveredTo, hflow] at h
    exact absurd rfl h
  | ok flow =>
    rw [deliveredTo_ok hflow] at h
    split_ifs at h with hsite
    · exact ⟨flow,rfl,hsite⟩
    · exact absurd rfl h

/-- All requests ask the site of the first one, as nothing is opened to another. -/
theorem EachToItsSite.same_site {request : Request} {requests : List Request}
    (h : EachToItsSite (request :: requests)) :
    ∃ flow, handleClient ((request :: requests).flatMap Request.wire) = .ok flow ∧
      flow.site = request.site ∧ ∀ next ∈ requests, next.site = request.site := by
  have hfilled : ∀ next ∈ request :: requests,
      ∃ flow, handleClient ((request :: requests).flatMap Request.wire) = .ok flow ∧
        flow.site = next.site := by
    intro next hnext
    apply deliveredTo_ne
    rw [h next.site]
    intro hempty
    have hmem : next ∈ (request :: requests).filter (·.site = next.site) := by simpa using hnext
    exact next.originForm_ne (List.flatMap_eq_nil_iff.mp hempty next hmem)
  obtain ⟨flow,hflow,hsite⟩ := hfilled request List.mem_cons_self
  refine ⟨flow,hflow,hsite,fun next hnext => ?_⟩
  obtain ⟨flow',hflow',hsite'⟩ := hfilled next (List.mem_cons_of_mem _ hnext)
  rw [hflow] at hflow'
  obtain rfl := Except.ok.inj hflow'
  exact hsite'.symm.trans hsite

theorem filter_same_site {requests : List Request} {site : Site} (h : ∀ next ∈ requests, next.site = site) :
    requests.filter (·.site = site) = requests :=
  List.filter_eq_self.mpr fun next hnext => by simpa using h next hnext

theorem Request.isOrigin.wire {request : Request} (h : request.isOrigin) :
    request.wire = request.originForm := by
  obtain ⟨target,htarget⟩ := h
  rw [Request.wire, Request.originForm, htarget]
  rfl

theorem exists_texts {lines : List Bytes} (h : ∀ line ∈ lines, ∃ text, utf8 text = line) :
    ∃ texts : List Text, lines = texts.map utf8 := by
  induction lines with
  | nil => exact ⟨[],rfl⟩
  | cons line lines ih =>
    obtain ⟨⟨text,rfl⟩,hlines⟩ := List.forall_mem_cons.mp h
    obtain ⟨texts,rfl⟩ := ih hlines
    exact ⟨text :: texts,rfl⟩

theorem EachToItsSite.meant {request : Request} {requests : List Request}
    (h : EachToItsSite (request :: requests)) :
    request.ReadAsMeant ∧ ∀ next ∈ requests, next.isOrigin ∧ next.site = request.site := by
  obtain ⟨flow,hflow,hsite,hsame⟩ := h.same_site
  have hall : ∀ next ∈ request :: requests, next.site = request.site :=
    List.forall_mem_cons.mpr ⟨rfl,hsame⟩
  have hout : flow.outbound = (request :: requests).flatMap Request.originForm := by
    have hown := h request.site
    rwa [deliveredTo_ok hflow, if_pos hsite, filter_same_site hall] at hown
  rw [List.flatMap_cons] at hflow
  obtain ⟨hfirst,hshort,texts,htexts⟩ := request.handleClient_ok hflow
  rw [request.handleClient_wire _ hfirst hshort htexts] at hflow
  cases hparse : parseHttpForwardTarget request.target.uri (headText
      (requestLine request.method request.target.uri request.version :: texts)) with
  | error e =>
    rw [hparse] at hflow
    cases hflow
  | ok r =>
    obtain ⟨address,uri⟩ := r
    rw [hparse] at hflow
    obtain rfl := Except.ok.inj hflow
    have hplain : ∀ c ∈ uri, isWhitespace c = false := fun c hc => by
      rcases parse_uri hparse c hc with rfl | hmem
      · decide
      · exact request.target.uri_plain c hmem
    -- the URI that is written has to be the one of the origin form, as both end at a blank
    rw [List.flatMap_cons, Request.originForm, List.append_assoc] at hout
    obtain ⟨rfl,hrest⟩ := request.head_inj hplain request.target.originUri_plain hout
    obtain ⟨hport,hmeant,-⟩ := (request.parse_iff htexts address).mp hparse
    have horigin := wires_origin (List.append_cancel_left hrest)
    refine ⟨⟨hfirst,hshort,?_,hport,hmeant⟩,fun next hnext => ⟨horigin next hnext,hsame next hnext⟩⟩
    intro line hline
    rw [htexts] at hline
    obtain ⟨text,-,rfl⟩ := List.mem_map.mp hline
    exact ⟨text,rfl⟩

theorem Request.ReadAsMeant.each_to_its_site {request : Request} {requests : List Request}
    (h : request.ReadAsMeant) (hrest : ∀ next ∈ requests, next.isOrigin ∧ next.site = request.site) :
    EachToItsSite (request :: requests) := by
  intro site
  have hall : ∀ next ∈ request :: requests, next.site = request.site :=
    List.forall_mem_cons.mpr ⟨rfl,fun next hnext => (hrest next hnext).2⟩
  have hwires : requests.flatMap Request.wire = requests.flatMap Request.originForm := by
    rw [List.flatMap_def, List.flatMap_def,
      List.map_congr_left fun next hnext => (hrest next hnext).1.wire]
  obtain ⟨texts,htexts⟩ := exists_texts h.isText
  have hparse := (request.parse_iff htexts _).mpr ⟨h.port,h.target,rfl⟩
  have hflow := request.handleClient_wire (requests.flatMap Request.wire) h.first h.short htexts
  rw [hparse, ← List.flatMap_cons] at hflow
  have hsite : Flow.site ⟨.httpForward, request.target.authority.address,
      request.head request.target.originUri ++
        (request.body ++ requests.flatMap Request.wire)⟩ = request.site := by
    simp [Flow.site, Authority.address, Request.site, Authority.site]
  rw [deliveredTo_ok hflow, hsite]
  by_cases hasked : request.site = site
  · subst hasked
    rw [if_pos rfl, filter_same_site hall, List.flatMap_cons, Request.originForm, List.append_assoc,
      ← hwires]
  · have hnone : (request :: requests).filter (·.site = site) = [] := by
      refine List.filter_eq_nil_iff.mpr fun next hnext => ?_
      rw [hall next hnext]
      simpa using hasked
    rw [if_neg hasked, hnone]
    rfl

/-- Every request reaches its own site exactly if the first one is read as meant and all
behind it are in origin form and ask the same site. -/
theorem each_to_its_site_iff (request : Request) (requests : List Request) :
    EachToItsSite (request :: requests) ↔ request.ReadAsMeant ∧
      ∀ next ∈ requests, next.isOrigin ∧ next.site = request.site :=
  ⟨EachToItsSite.meant,fun h => h.1.each_to_its_site h.2⟩

/-- `GET http://host/ HTTP/1.1`, for a host of one letter. -/
def getRequest (letter : Char) (h : letter ∈ ['a', 'b']) : Request where
  method := "GET".toList
  target := .absolute {
    scheme := "http".toList
    authority := {
      host := [letter]
      bracketed := false
      port := none
      hostChars := by
        rw [List.mem_cons, List.mem_singleton] at h
        obtain rfl | rfl := h <;> exact forall_mem_of_all (by decide)
      digits := by simp }
    path := ['/']
    query := none
    lines := []
    isHttp := by decide
    pathFront := .inr rfl
    pathChars := forall_mem_of_all (by decide)
    queryChars := by simp }
  version := "HTTP/1.1".toList
  body := []
  method_ne := by decide
  methodChars := forall_mem_of_all (by decide)
  notConnect := by decide
  version_ne := by decide
  versionChars := forall_mem_of_all (by decide)

/-- The second request on a connection goes where the first one went. -/
theorem second_request_follows_first : ¬ ∀ requests, EachToItsSite requests := by
  intro h
  obtain ⟨-,-,-,hsame⟩ :=
    EachToItsSite.same_site (h [getRequest 'a' (by decide), getRequest 'b' (by decide)])
  have hsite := hsame _ (List.mem_singleton.mpr rfl)
  exact absurd hsite (by decide)

end AtlasKernel.HttpProxy
