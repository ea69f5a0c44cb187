import AtlasKernel.HttpProxy.Connection

/-! Which heads in absolute form go upstream with nothing but their request line rewritten.
The line is put together again from its words and looked for in the whole head. -/
namespace AtlasKernel.HttpProxy
open AtlasKernel.Lib AtlasKernel.Vless

/-! ## The request line -/

def firstLine (request : Text) : Text := (splitCrlf request).headD []

/-- The head from the end of its first line on. -/
def behindFirstLine (request : Text) : Text := request.drop (firstLine request).length

def methodOf (request : Text) : Text := (splitWhitespace (firstLine request)).getD 0 []
def uriOf (request : Text) : Text := (splitWhitespace (firstLine request)).getD 1 []
def versionOf (request : Text) : Text :=
  (splitWhitespace (firstLine request)).getD 2 "HTTP/1.1".toList

/-- A request in absolute form, with what stands behind the scheme. -/
structure AbsoluteForm (request rest : Text) : Prop where
  notConnect : toAsciiLowercase (methodOf request) ≠ "connect".toList
  uri : uriOf request = "http://".toList ++ rest

/-! ## What is to be sent -/

def endsAuthority (c : Char) : Bool := c = '/' || c = '?' || c = '#'

/-- The authority of a URI ends at the first slash, question mark or number sign. -/
def namedAuthority (rest : Text) : Text := rest.takeWhile (!endsAuthority ·)

/-- What follows the authority, with a slash in front. -/
def originForm (rest : Text) : Text :=
  match rest.dropWhile (!endsAuthority ·) with
  | '/' :: path => '/' :: path
  | path => '/' :: path

/-- The connection goes to the authority, and the head has a new request line. -/
structure ExactForward (request rest : Text) (body : Bytes) (flow : Flow) : Prop where
  target : parseHostPort (namedAuthority rest) 80 = .ok flow.target
  outbound : flow.outbound = utf8 (requestLine (methodOf request) (originForm rest)
    (versionOf request) ++ behindFirstLine request) ++ body

/-! ## Words -/

/-- The first word starts where the text does. -/
theorem splitWhitespace_front {c : Char} (hc : isWhitespace c = false) (text : Text) :
    ∃ word words, splitWhitespace (c :: text) = (c :: word) :: words := by
  obtain ⟨word,words,hsplit⟩ := List.exists_cons_of_ne_nil (List.splitOnP_ne_nil isWhitespace text)
  refine ⟨word,words.filter (· ≠ []),?_⟩
  rw [splitWhitespace, List.splitOnP_cons_eq_if_modifyHead, if_neg (by simp [hc]), hsplit,
    List.modifyHead_cons, List.filter_cons_of_pos (by simp)]

theorem mem_splitOnP {p : Char → Bool} {text part : Text} (h : part ∈ text.splitOnP p) :
    ∀ c ∈ part, p c = false := by
  induction text generalizing part with
  | nil =>
    rw [List.splitOnP_nil, List.mem_singleton] at h
    rw [h]
    simp
  | cons c text ih =>
    rw [List.splitOnP_cons_eq_if_modifyHead] at h
    split at h
    · cases h with
      | head => simp
      | tail _ hmem => exact ih hmem
    · next hc =>
      obtain ⟨word,words,hsplit⟩ := List.exists_cons_of_ne_nil (List.splitOnP_ne_nil p text)
      rw [hsplit, List.modifyHead_cons] at h
      rw [hsplit] at ih
      cases h with
      | head =>
        intro d hd
        rcases List.mem_cons.mp hd with rfl | hd
        · simpa using hc
        · exact ih List.mem_cons_self d hd
      | tail _ hmem => exact ih (List.mem_cons_of_mem word hmem)

/-- A word is not empty, and nothing in it is blank. -/
theorem mem_splitWhitespace {text word : Text} (h : word ∈ splitWhitespace text) :
    word ≠ [] ∧ ∀ c ∈ word, isWhitespace c = false := by
  obtain ⟨hmem,hne⟩ := List.mem_filter.mp h
  exact ⟨by simpa using hne,mem_splitOnP hmem⟩

theorem splitWhitespace_append {c : Char} (hc : isWhitespace c = true) (text behind : Text) :
    splitWhitespace (text ++ c :: behind) = splitWhitespace text ++ splitWhitespace behind := by
  rw [splitWhitespace, List.splitOnP_append_cons text behind hc, List.filter_append]
  rfl

/-! ## Lines -/

theorem splitCrlf_ne_nil (text : Text) : splitCrlf text ≠ [] := by
  induction text using splitCrlf.induct with
  | case1 cs ih => simp [splitCrlf]
  | case2 c cs hcrlf part parts hparts ih => simp [splitCrlf, hparts]
  | case3 c cs hcrlf hparts ih => exact absurd hparts ih
  | case4 => simp [splitCrlf]

/-- Behind the first line there is nothing or a line end. -/
theorem firstLine_split (request : Text) :
    request = firstLine request ++ behindFirstLine request ∧
      (behindFirstLine request = [] ∨ ∃ more, behindFirstLine request = '\r' :: '\n' :: more) := by
  have hsplit : ∃ behind, request = firstLine request ++ behind ∧
      (behind = [] ∨ ∃ more, behind = '\r' :: '\n' :: more) := by
    induction request using splitCrlf.induct with
    | case1 more ih => exact ⟨'\r' :: '\n' :: more,rfl,.inr ⟨more,rfl⟩⟩
    | case2 c cs hcrlf part parts hparts ih =>
      obtain ⟨behind,hcs,hbehind⟩ := ih
      have hline : firstLine cs = part := by rw [firstLine, hparts]; rfl
      have hlines : firstLine (c :: cs) = c :: part := by
        rw [firstLine, splitCrlf, hparts]
        · rfl
        · exact hcrlf
      refine ⟨behind,?_,hbehind⟩
      rw [hlines, List.cons_append, ← hline, ← hcs]
    | case3 c cs hcrlf hparts ih => exact absurd hparts (splitCrlf_ne_nil cs)
    | case4 => exact ⟨[],rfl,.inl rfl⟩
  obtain ⟨behind,hrequest,hbehind⟩ := hsplit
  have hdrop : behindFirstLine request = behind := by
    rw [behindFirstLine]
    calc
      request.drop (firstLine request).length
          = (firstLine request ++ behind).drop (firstLine request).length := by rw [← hrequest]
      _ = behind := List.drop_left
  rw [hdrop]
  exact ⟨hrequest,hbehind⟩

/-- The words of the first line are the first words of the head. -/
theorem splitWhitespace_request (request : Text) :
    splitWhitespace (firstLine request) <+: splitWhitespace request := by
  obtain ⟨hrequest,hend | ⟨more,hend⟩⟩ := firstLine_split request
  · rw [hend, List.append_nil] at hrequest
    exact ⟨[],by rw [← hrequest, List.append_nil]⟩
  · rw [hend] at hrequest
    have happend := splitWhitespace_append (by decide : isWhitespace '\r' = true)
      (firstLine request) ('\n' :: more)
    rw [← hrequest] at happend
    rw [happend]
    exact List.prefix_append ..

/-! ## The search -/

/-- Either nothing is found, or the first place is replaced. -/
theorem replaceFirst_cases (pattern replacement text : Text) :
    replaceFirst pattern replacement text = text ∨
      ∃ before behind, text = before ++ (pattern ++ behind) ∧
        replaceFirst pattern replacement text = before ++ (replacement ++ behind) := by
  induction text with
  | nil =>
    rw [replaceFirst]
    split
    · next hnil => exact .inr ⟨[],[],by simp [hnil],by simp⟩
    · exact .inl rfl
  | cons c cs ih =>
    rw [replaceFirst]
    split
    · next hpre =>
      obtain ⟨behind,hbehind⟩ := List.isPrefixOf_iff_prefix.mp hpre
      rw [← hbehind, List.drop_left]
      exact .inr ⟨[],behind,rfl,rfl⟩
    · obtain hsame | ⟨before,behind,htext,hreplaced⟩ := ih
      · rw [hsame]
        exact .inl rfl
      · rw [hreplaced]
        exact .inr ⟨c :: before,behind,by rw [htext]; rfl,rfl⟩

/-- A text that begins with a word and a URI in absolute form does not begin with this word and
a path. -/
theorem absolute_not_path {method uri rest text : Text} {words : List Text} (hne : method ≠ [])
    (hplain : ∀ c ∈ method, isWhitespace c = false)
    (hwords : splitWhitespace text = method :: uri :: words)
    (huri : uri = "http://".toList ++ rest) : ¬ method ++ [' ', '/'] <+: text := by
  rintro ⟨more,rfl⟩
  have happend : method ++ [' ', '/'] ++ more = method ++ ' ' :: ('/' :: more) := by simp
  obtain ⟨word,words',hfront⟩ := splitWhitespace_front (by decide : isWhitespace '/' = false) more
  rw [happend, splitWhitespace_word hne hplain, hfront] at hwords
  have hword : '/' :: word = uri := (List.cons.inj (List.cons.inj hwords).2).1
  rw [huri] at hword
  exact absurd (List.cons.inj hword).1 (by decide)

/-- Texts that are replaced behind the same beginning begin with the same. -/
theorem same_front {front before pattern replacement behind text : Text} {line line' : Text}
    (hpattern : pattern = front ++ ' ' :: line) (hreplacement : replacement = front ++ ' ' :: line')
    (hbefore : before ≠ []) (htext : text = before ++ (pattern ++ behind)) {c : Char}
    (hpre : front ++ [' ', c] <+: before ++ (replacement ++ behind)) :
    front ++ [' ', c] <+: text := by
  have hsame : before ++ (front ++ [' ']) <+: before ++ (replacement ++ behind) := by
    rw [hreplacement]
    exact ⟨line' ++ behind,by simp⟩
  have hsame' : before ++ (front ++ [' ']) <+: text := by
    rw [htext, hpattern]
    exact ⟨line ++ behind,by simp⟩
  have hpos := List.length_pos_iff.mpr hbefore
  have hle : (front ++ [' ', c]).length ≤ (before ++ (front ++ [' '])).length := by
    simp
    omega
  exact (List.prefix_of_prefix_length_le hpre hsame hle).trans hsame'

/-! ## The delimiters -/

/-- A text up to its first slash, and from there on. -/
theorem slash_split (rest : Text) :
    ∃ authority behind, rest = authority ++ behind ∧ rest.takeWhile (· ≠ '/') = authority ∧
      (∀ c ∈ authority, c ≠ '/') ∧ (behind = [] ∨ ∃ path, behind = '/' :: path) := by
  refine ⟨rest.takeWhile (· ≠ '/'),rest.dropWhile (· ≠ '/'),?_,rfl,?_,?_⟩
  · rw [List.takeWhile_append_dropWhile]
  · intro c hc
    simpa using List.mem_takeWhile_imp hc
  · have hhead := List.head?_dropWhile_not (fun c : Char => decide (c ≠ '/')) rest
    cases hdrop : rest.dropWhile (· ≠ '/') with
    | nil => exact .inl rfl
    | cons c path =>
      rw [hdrop] at hhead
      exact .inr ⟨path,by simpa using hhead⟩

/-- The first slash ends the authority where no other delimiter comes before it. -/
theorem splitAuthorityPath_exact {rest : Text}
    (h : ∀ c ∈ rest.takeWhile (· ≠ '/'), c ≠ '?' ∧ c ≠ '#') :
    splitAuthorityPath rest = (namedAuthority rest, originForm rest) := by
  obtain ⟨authority,behind,rfl,hfront,hslash,hbehind⟩ := slash_split rest
  have hall : ∀ c ∈ authority, (!endsAuthority c) = true := by
    intro c hc
    have hmem := h c (by rw [hfront]; exact hc)
    simp [endsAuthority, hslash c hc, hmem.1, hmem.2]
  rw [namedAuthority, originForm, List.takeWhile_append_of_pos hall,
    List.dropWhile_append_of_pos hall]
  obtain rfl | ⟨path,rfl⟩ := hbehind
  · simpa using splitAuthorityPath_none hslash
  · rw [splitAuthorityPath_slash hslash]
    simp [endsAuthority]

theorem originForm_eq_iff (rest : Text) :
    (splitAuthorityPath rest).2 = originForm rest ↔
      ∀ c ∈ rest.takeWhile (· ≠ '/'), c ≠ '?' ∧ c ≠ '#' := by
  constructor
  · intro hsame
    by_contra h
    obtain ⟨before,c,after,hsplit,hbefore,hc⟩ := exists_first h
    obtain ⟨authority,behind,rfl,hfront,hslash,hbehind⟩ := slash_split rest
    rw [hfront] at hsplit
    obtain rfl := hsplit
    have hall : ∀ d ∈ before, (!endsAuthority d) = true := by
      intro d hd
      have hne := hslash d (List.mem_append_left _ hd)
      simp [endsAuthority, hne, (hbefore d hd).1, (hbefore d hd).2]
    have hends : (!endsAuthority c) = false := by
      simp only [ne_eq, not_and_or, not_not] at hc
      obtain rfl | rfl := hc <;> rfl
    have hne : c ≠ '/' := hslash c (List.mem_append_right _ List.mem_cons_self)
    -- the origin form has the delimiter behind its slash, so it is the longer one
    have horigin : originForm (before ++ c :: after ++ behind) = '/' :: c :: (after ++ behind) := by
      rw [originForm, List.append_assoc, List.dropWhile_append_of_pos hall, List.cons_append,
        List.dropWhile_cons_of_neg (by simp [hends])]
      split
      · next heq => exact absurd (List.cons.inj heq).1 hne
      · rfl
    rw [horigin] at hsame
    have hlen := congrArg List.length hsame
    obtain rfl | ⟨path,rfl⟩ := hbehind
    · rw [List.append_nil, splitAuthorityPath_none hslash] at hlen
      simp at hlen
    · rw [splitAuthorityPath_slash hslash] at hlen
      simp at hlen
      omega
  · intro h
    rw [splitAuthorityPath_exact h]

/-! ## The rewritten head -/

/-- What the words of an absolute head are. -/
theorem AbsoluteForm.words {request rest : Text} (h : AbsoluteForm request rest) :
    ∃ words, splitWhitespace (firstLine request) = methodOf request :: uriOf request :: words := by
  have huri := h.uri
  rw [uriOf] at huri
  rw [methodOf, uriOf]
  match hwords : splitWhitespace (firstLine request) with
  | [] | [_] =>
    rw [hwords] at huri
    cases huri
  | method :: uri :: words => exact ⟨words,rfl⟩

theorem requestLine_eq (method uri version : Text) :
    requestLine method uri version = method ++ ' ' :: (uri ++ ' ' :: version) := by
  simp [requestLine]

theorem originForm_front (rest : Text) : ∃ path, originForm rest = '/' :: path := by
  rw [originForm]
  split
  · exact ⟨_,rfl⟩
  · exact ⟨_,rfl⟩

theorem originForm_mem {rest : Text} {c : Char} (h : c ∈ originForm rest) : c = '/' ∨ c ∈ rest := by
  have hsuffix : rest.dropWhile (!endsAuthority ·) <:+ rest := List.dropWhile_suffix _
  rw [originForm] at h
  split at h
  · next heq =>
    rw [heq] at hsuffix
    exact .inr (hsuffix.subset h)
  · obtain rfl | hmem := List.mem_cons.mp h
    · exact .inl rfl
    · exact .inr (hsuffix.subset hmem)

theorem AbsoluteForm.blank_not_mem {request rest : Text} (h : AbsoluteForm request rest) :
    ' ' ∉ rest := by
  intro hmem
  obtain ⟨words,hwords⟩ := h.words
  have huri : uriOf request ∈ splitWhitespace (firstLine request) := by simp [hwords]
  have hblank : ' ' ∈ uriOf request := by
    rw [h.uri]
    exact List.mem_append_right _ hmem
  cases (mem_splitWhitespace huri).2 ' ' hblank

theorem AbsoluteForm.not_path {request rest : Text} (h : AbsoluteForm request rest) :
    ¬ methodOf request ++ [' ', '/'] <+: request := by
  obtain ⟨words,hwords⟩ := h.words
  have hmethod : methodOf request ∈ splitWhitespace (firstLine request) := by simp [hwords]
  obtain ⟨more,hmore⟩ := splitWhitespace_request request
  rw [hwords] at hmore
  exact absolute_not_path (mem_splitWhitespace hmethod).1 (mem_splitWhitespace hmethod).2
    hmore.symm h.uri

/-- The head that is written has the new request line in the place of the first line exactly if
that line is the one that is looked for. -/
theorem rewriteHttpRequest_iff {request rest : Text} (h : AbsoluteForm request rest)
    {originUri : Text} (hplain : ' ' ∉ originUri) :
    rewriteHttpRequest request (methodOf request) (uriOf request) (versionOf request) originUri =
        requestLine (methodOf request) (originForm rest) (versionOf request) ++
          behindFirstLine request ↔
      firstLine request = requestLine (methodOf request) (uriOf request) (versionOf request) ∧
        originUri = originForm rest := by
  obtain ⟨hrequest,-⟩ := firstLine_split request
  constructor
  · intro hwritten
    obtain ⟨path,hpath⟩ := originForm_front rest
    have hfront : methodOf request ++ [' ', '/'] <+:
        rewriteHttpRequest request (methodOf request) (uriOf request) (versionOf request)
          originUri := by
      rw [hwritten, requestLine_eq, hpath]
      exact ⟨path ++ ' ' :: versionOf request ++ behindFirstLine request,by simp⟩
    rw [rewriteHttpRequest] at hwritten hfront
    obtain hsame | ⟨before,behind,hfound,hreplaced⟩ := replaceFirst_cases
      (requestLine (methodOf request) (uriOf request) (versionOf request))
      (requestLine (methodOf request) originUri (versionOf request)) request
    · rw [hsame] at hfront
      exact absurd hfront h.not_path
    · by_cases hbefore : before = []
      · subst hbefore
        rw [hreplaced, List.nil_append, requestLine_eq, requestLine_eq] at hwritten
        rw [List.nil_append] at hfound
        have hblank : ' ' ∉ originForm rest := by
          intro hmem
          obtain hslash | hmem := originForm_mem hmem
          · cases hslash
          · exact h.blank_not_mem hmem
        simp only [List.append_assoc, List.cons_append, List.append_cancel_left_eq,
          List.cons.injEq, true_and] at hwritten
        obtain ⟨horigin,hbehind⟩ := until_eq hplain hblank hwritten
        have hsame : behind = behindFirstLine request := List.append_cancel_left hbehind
        refine ⟨?_,horigin⟩
        rw [hsame] at hfound
        exact List.append_cancel_right (hrequest.symm.trans hfound)
      · rw [hreplaced] at hfront
        exact absurd (same_front (requestLine_eq ..) (requestLine_eq ..) hbefore hfound hfront)
          h.not_path
  · rintro ⟨hline,rfl⟩
    have hfront := replaceFirst_front
      (requestLine (methodOf request) (uriOf request) (versionOf request))
      (requestLine (methodOf request) (originForm rest) (versionOf request))
      (behindFirstLine request)
    rw [← hline, ← hrequest, hline] at hfront
    exact hfront

/-! ## The connection -/

/-- What becomes of a head in absolute form. -/
theorem handleHttp_absolute {first : UInt8} {client head body : Bytes} {request : String}
    {rest : Text} {flow : Flow} (hhead : readHttpHead [first] client = .ok (head, body))
    (htext : fromUtf8 head = .ok request) (h : AbsoluteForm request.toList rest)
    (hflow : handleHttp first client = .ok flow) :
    parseHostPort (splitAuthorityPath rest).1 80 = .ok flow.target ∧
      flow.outbound = utf8 (rewriteHttpRequest request.toList (methodOf request.toList)
        (uriOf request.toList) (versionOf request.toList) (splitAuthorityPath rest).2) ++ body := by
  have hparse : parseHttpForwardTarget (uriOf request.toList) request.toList =
      (parseHostPort (splitAuthorityPath rest).1 80).map fun target =>
        (target,(splitAuthorityPath rest).2) := by
    rw [h.uri, parseHttpForwardTarget, stripPrefix_append]
  rw [handleHttp, hhead] at hflow
  simp only [bind, Except.bind, htext] at hflow
  have hforward : (if toAsciiLowercase (methodOf request.toList) = "connect".toList then
      (parseHostPort (uriOf request.toList) 443).bind fun target =>
        .ok ⟨.httpConnect,target,body⟩
      else (parseHttpForwardTarget (uriOf request.toList) request.toList).bind fun r =>
        .ok ⟨.httpForward,r.1,utf8 (rewriteHttpRequest request.toList (methodOf request.toList)
          (uriOf request.toList) (versionOf request.toList) r.2) ++ body⟩) = .ok flow := hflow
  rw [if_neg h.notConnect, hparse] at hforward
  cases htarget : parseHostPort (splitAuthorityPath rest).1 80 with
  | error err =>
    rw [htarget] at hforward
    cases hforward
  | ok target =>
    rw [htarget] at hforward
    cases hforward
    exact ⟨rfl,rfl⟩

/-- An accepted head in absolute form goes to the authority it names, with only its request line
rewritten, exactly if that line is a method, a URI and a version with one space between two of
them, and no question mark or number sign comes before the first slash behind the scheme. -/
theorem http_forward_exact_iff {first : UInt8} {client head body : Bytes} {request : String}
    {rest : Text} {flow : Flow} (hhead : readHttpHead [first] client = .ok (head, body))
    (htext : fromUtf8 head = .ok request) (h : AbsoluteForm request.toList rest)
    (hflow : handleHttp first client = .ok flow) :
    ExactForward request.toList rest body flow ↔
      firstLine request.toList = requestLine (methodOf request.toList) (uriOf request.toList)
        (versionOf request.toList) ∧
      ∀ c ∈ rest.takeWhile (· ≠ '/'), c ≠ '?' ∧ c ≠ '#' := by
  obtain ⟨htarget,houtbound⟩ := handleHttp_absolute hhead htext h hflow
  have hplain : ' ' ∉ (splitAuthorityPath rest).2 := by
    intro hmem
    obtain hpath | hpath := @splitAuthorityPath_path [] (by simp) rest
    · rw [List.nil_append] at hpath
      rw [hpath] at hmem
      cases List.mem_singleton.mp hmem
    · exact h.blank_not_mem (hpath.subset hmem)
  have hwritten := rewriteHttpRequest_iff h hplain
  rw [originForm_eq_iff] at hwritten
  rw [← hwritten]
  constructor
  · intro hexact
    have hsame := houtbound.symm.trans hexact.outbound
    exact utf8_injective (List.append_cancel_right hsame)
  · intro hsame
    have hends := (hwritten.mp hsame).2
    constructor
    · rw [splitAuthorityPath_exact hends] at htarget
      exact htarget
    · rw [houtbound, hsame]

theorem http_forward_exact_sample :
    ExactForward "GET http://a/ HTTP/1.1\r\n\r\n".toList "a/".toList []
      ⟨.httpForward,⟨"a",80⟩,utf8 "GET / HTTP/1.1\r\n\r\n".toList⟩ :=
  (@http_forward_exact_iff 0x47 (utf8 "ET http://a/ HTTP/1.1\r\n\r\n".toList)
    (utf8 "GET http://a/ HTTP/1.1\r\n\r\n".toList) [] _ _ _ (by decide +kernel)
    (fromUtf8_utf8 _) ⟨by decide +kernel,by decide +kernel⟩ (by decide +kernel)).mpr
    ⟨by decide +kernel,forall_mem_of_all (by decide +kernel)⟩

/-- With a second space the head goes on as it came, and a query behind the host becomes a part
of the host. -/
theorem spaces_and_query_forwarded :
    handleHttp 0x47 (utf8 "ET  http://a/ HTTP/1.1\r\n\r\n".toList) =
      .ok ⟨.httpForward,⟨"a",80⟩,utf8 "GET  http://a/ HTTP/1.1\r\n\r\n".toList⟩ ∧
    ¬ ExactForward "GET  http://a/ HTTP/1.1\r\n\r\n".toList "a/".toList []
      ⟨.httpForward,⟨"a",80⟩,utf8 "GET  http://a/ HTTP/1.1\r\n\r\n".toList⟩ ∧
    handleHttp 0x47 (utf8 "ET http://a?q HTTP/1.1\r\n\r\n".toList) =
      .ok ⟨.httpForward,⟨"a?q",80⟩,utf8 "GET / HTTP/1.1\r\n\r\n".toList⟩ ∧
    ¬ ExactForward "GET http://a?q HTTP/1.1\r\n\r\n".toList "a?q".toList []
      ⟨.httpForward,⟨"a?q",80⟩,utf8 "GET / HTTP/1.1\r\n\r\n".toList⟩ := by
  refine ⟨by decide +kernel,?_,by decide +kernel,?_⟩
  · intro h
    exact absurd h.outbound (by decide +kernel)
  · intro h
    exact absurd h.outbound (by decide +kernel)

end AtlasKernel.HttpProxy
