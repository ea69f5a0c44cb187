import AtlasKernel.Adapter.Authority
import AtlasKernel.HttpProxy.ForwardHead
import AtlasKernel.Lib.HeadReader
import AtlasKernel.Lib.StrSlice
import AtlasKernel.Socks.Connect

/-! The HTTP adapter asks a proxy for a tunnel; the proxy may be the HTTP inbound of another
kernel. Source: `adapter/http.rs`, `main.rs`. -/
namespace AtlasKernel.Adapter
open AtlasKernel.Lib AtlasKernel.Vless AtlasKernel.HttpProxy AtlasKernel.Shadowsocks
open AtlasKernel.Socks

/-! ## The adapter -/

/-- What `connect` writes when the stream to the proxy is open. -/
def connectRequest (target : TargetAddress) : Text :=
  "CONNECT ".toList ++ (authority target).toList ++ " HTTP/1.1\r\nHost: ".toList ++
    (authority target).toList ++ "\r\nProxy-Connection: keep-alive\r\n\r\n".toList

def endOfHead : Bytes := [13, 10, 13, 10]

/-- `read_http_head`, with the rest of the stream. -/
def readResponseHead (stream : Bytes) : Except String (Text × Bytes) :=
  match readHead endOfHead 8192 [] stream with
  | .error .unexpectedEof => .error "early eof"
  | .error .tooLarge => .error "HTTP proxy response header is too large"
  | .ok (buffer, stream) => (fromUtf8 buffer).map fun text => (text.toList, stream)

/-- `connect` behind its request: the stream that is handed on, or an error. -/
def tunnelThrough (stream : Bytes) : Except String Bytes :=
  match readResponseHead stream with
  | .error err => .error err
  | .ok (response, stream) =>
    if !"HTTP/1.1 200".toList.isPrefixOf response && !"HTTP/1.0 200".toList.isPrefixOf response then
      .error "HTTP proxy CONNECT failed"
    else .ok stream

/-- What the inbound writes when the outbound connection is open. -/
def established : Bytes := utf8 "HTTP/1.1 200 Connection Established\r\n\r\n".toList

/-! ## The head of the request -/

def connectLines (target : TargetAddress) : List Text :=
  [HttpProxy.requestLine "CONNECT".toList (authority target).toList "HTTP/1.1".toList,
    "Host: ".toList ++ (authority target).toList, "Proxy-Connection: keep-alive".toList]

theorem headText_connect {front middle back method version hostName keepAlive : Text}
    (hfront : front = method ++ [' '])
    (hmiddle : middle = ' ' :: version ++ ['\r', '\n'] ++ hostName)
    (hback : back = ['\r', '\n'] ++ keepAlive ++ ['\r', '\n'] ++ ['\r', '\n']) (host : Text) :
    front ++ host ++ middle ++ host ++ back =
      headText [HttpProxy.requestLine method host version, hostName ++ host, keepAlive] := by
  subst hfront hmiddle hback
  simp [headText, HttpProxy.requestLine]

theorem connectRequest_lines (target : TargetAddress) :
    connectRequest target = headText (connectLines target) :=
  headText_connect (by decide +kernel) (by decide +kernel) (by decide +kernel) _

theorem isDigit_size {c : Char} (h : c.isDigit = true) : c.utf8Size = 1 := by
  rw [Char.isDigit, Bool.and_eq_true, decide_eq_true_eq, decide_eq_true_eq] at h
  rw [Char.utf8Size, if_pos (UInt32.le_trans h.2 (by decide))]

theorem digit_notWhite {c : Char} (h : c.isDigit = true) : isWhitespace c = false := by
  obtain ⟨hlow,hhigh⟩ : 48 ≤ c.toNat ∧ c.toNat ≤ 57 := by
    rw [Char.isDigit, Bool.and_eq_true, decide_eq_true_eq, decide_eq_true_eq] at h
    exact h
  simp [isWhitespace]
  omega

theorem authority_plain {target : TargetAddress}
    (h : ∀ c ∈ target.host.toList, isWhitespace c = false) :
    (authority target).toList ≠ [] ∧ ∀ c ∈ (authority target).toList, isWhitespace c = false := by
  rw [authority_toList]
  refine ⟨by simp,fun c hc => ?_⟩
  rcases List.mem_append.mp hc with hc | hc
  · exact h c hc
  · rcases List.mem_cons.mp hc with rfl | hc
    · decide
    · exact digit_notWhite (Nat.isDigit_of_mem_toDigits (by decide) (by decide) hc)

/-- A head in which the target is one word. -/
theorem handleClient_connect {method uri version : Text} {lines : List Text}
    (hmethod : toAsciiLowercase method = "connect".toList)
    (hfirst : ∀ b ∈ (utf8 method).head?, b ∈ httpFirstBytes)
    (hwords : ∀ word ∈ [method, uri, version], word ≠ [] ∧ ∀ c ∈ word, isWhitespace c = false)
    (hlines : ∀ line ∈ lines, line ≠ [] ∧ ∀ c ∈ line, c ≠ '\r' ∧ c ≠ '\n') (client : Bytes) :
    handleClient (utf8 (headText (HttpProxy.requestLine method uri version :: lines)) ++ client) =
      if (utf8 (headText (HttpProxy.requestLine method uri version :: lines))).length ≤ 65536 then
        (parseHostPort uri 443).map fun target => ⟨.httpConnect, target, client⟩
      else .error .headerTooLarge := by
  have hmethodWord := hwords method (by simp)
  have huriWord := hwords uri (by simp)
  have hversionWord := hwords version (by simp)
  have hhead : ∀ line ∈ HttpProxy.requestLine method uri version :: lines,
      line ≠ [] ∧ ∀ c ∈ line, c ≠ '\r' ∧ c ≠ '\n' := by
    refine List.forall_mem_cons.mpr ⟨⟨by simp [HttpProxy.requestLine],fun c hc => ?_⟩,hlines⟩
    simp only [HttpProxy.requestLine, List.mem_append, List.mem_cons] at hc
    rcases hc with (hc | rfl | hc) | rfl | hc
    · exact plain_crlf (hmethodWord.2 c hc)
    · decide
    · exact plain_crlf (huriWord.2 c hc)
    · decide
    · exact plain_crlf (hversionWord.2 c hc)
  have hbytes : ∀ line ∈ (HttpProxy.requestLine method uri version :: lines).map utf8,
      line ≠ [] ∧ ∀ b ∈ line, b ≠ 13 ∧ b ≠ 10 := by
    intro line hline
    obtain ⟨text,htext,rfl⟩ := List.mem_map.mp hline
    exact ⟨utf8_ne_nil (hhead text htext).1,notMem_utf8_crlf (hhead text htext).2⟩
  obtain ⟨first,method',hcons⟩ := List.exists_cons_of_ne_nil (utf8_ne_nil hmethodWord.1)
  obtain ⟨more,hmore⟩ : ∃ more, utf8 (headText (HttpProxy.requestLine method uri version :: lines)) =
      first :: (method' ++ more) := by
    refine ⟨utf8 (' ' :: uri ++ ' ' :: version ++ ['\r', '\n'] ++ headText lines),?_⟩
    rw [← List.cons_append, ← hcons, ← utf8_append]
    simp [headText, HttpProxy.requestLine]
  have hne : method' ++ more ≠ [] := by
    intro hnil
    have hlen := congrArg List.length hmore
    rw [hnil, headText, utf8_append, List.length_append] at hlen
    have hcrlf : (utf8 ['\r', '\n']).length = 2 := by decide
    simp [hcrlf] at hlen
  have hread : readHttpHead [first] (method' ++ more ++ client) = _ :=
    readHttpHead_head (List.cons_ne_nil _ _) hbytes client hne ((headBytes_utf8 _).trans hmore)
  have hutf8 := fromUtf8_utf8 (String.ofList (headText (HttpProxy.requestLine method uri version :: lines)))
  rw [String.toList_ofList] at hutf8
  have hline : (splitCrlf (headText (HttpProxy.requestLine method uri version :: lines))).headD [] =
      HttpProxy.requestLine method uri version := by
    rw [splitCrlf_headText fun line hline hmem => ((hhead line hline).2 _ hmem).1 rfl]
    rfl
  have hparts : splitWhitespace (HttpProxy.requestLine method uri version) = [method, uri, version] := by
    rw [HttpProxy.requestLine, List.append_assoc, List.cons_append,
      splitWhitespace_word hmethodWord.1 hmethodWord.2,
      splitWhitespace_word huriWord.1 huriWord.2,
      splitWhitespace_last hversionWord.1 hversionWord.2]
  rw [← List.map_cons, headBytes_utf8] at hread
  rw [hmore, List.cons_append, handleClient, if_pos (hfirst first (by rw [hcons]; rfl)), handleHttp,
    hread, ← hmore]
  by_cases hshort : (utf8 (headText (HttpProxy.requestLine method uri version :: lines))).length ≤ 65536
  · rw [if_pos hshort, if_pos hshort]
    simp only [bind, Except.bind, hutf8, String.toList_ofList, hline, hparts, List.getD_cons_zero,
      List.getD_cons_succ, hmethod, if_true]
    cases parseHostPort uri 443 <;> rfl
  · rw [if_neg hshort, if_neg hshort]
    rfl

/-! ## The chain -/

/-- The inbound can read the target that is asked for. -/
structure PassedOn (target : TargetAddress) : Prop where
  oneWord : ∀ c ∈ target.host.toList, isWhitespace c = false
  noColon : ':' ∉ target.host.toList
  noBracket : target.host.toList.head? ≠ some '['
  short : (utf8 (connectRequest target)).length ≤ 65536

theorem rsplitOnce_some {sep : Char} {text before after : Text}
    (h : rsplitOnce sep text = some (before, after)) : text = before ++ sep :: after := by
  obtain ⟨⟨after',before'⟩,hsplit,hpair⟩ := Option.map_eq_some_iff.mp h
  cases hpair
  have htext := congrArg List.reverse (splitOnce_some hsplit)
  simpa using htext

theorem map_host {result : HttpProxy.Result UInt16} {host : Text} {target : TargetAddress}
    (h : (result.map fun port => ⟨String.ofList host, port⟩) = .ok target) :
    target.host.toList = host := by
  cases result with
  | error err => cases h
  | ok port =>
    cases h
    exact String.toList_ofList

/-- A host is read from what has been given as one. -/
theorem parseHostPort_mem {value : Text} {defaultPort : UInt16} {target : TargetAddress}
    (h : parseHostPort value defaultPort = .ok target) : ∀ c ∈ target.host.toList, c ∈ value := by
  rw [parseHostPort] at h
  split at h
  · next stripped hstrip =>
    have hvalue : ∀ c ∈ stripped, c ∈ value := by
      rw [stripPrefix] at hstrip
      split_ifs at hstrip
      rw [← Option.some.inj hstrip]
      exact fun c => List.mem_of_mem_drop
    split at h
    · cases h
    · next host rest hsplit =>
      have hhost : ∀ c ∈ host, c ∈ value := fun c hc => hvalue c (by
        rw [splitOnce_some hsplit]
        exact List.mem_append_left _ hc)
      split at h
      · next port _ =>
        rw [map_host h]
        exact hhost
      · cases h
        simpa using hhost
  · split at h
    · next host port hsplit =>
      split_ifs at h
      · cases h
        simp
      · rw [map_host h, rsplitOnce_some hsplit]
        exact fun c hc => List.mem_append_left _ hc
    · cases h
      simp

/-- What a tunnel is opened to was one word of the request. -/
theorem handleClient_oneWord {client up : Bytes} {target : TargetAddress}
    (h : handleClient client = .ok ⟨.httpConnect, target, up⟩) :
    ∀ c ∈ target.host.toList, isWhitespace c = false := by
  cases client with
  | nil => cases h
  | cons first client =>
    rw [handleClient] at h
    split_ifs at h
    rw [handleHttp] at h
    cases hread : readHttpHead [first] client with
    | error err =>
      rw [hread] at h
      cases h
    | ok result =>
      obtain ⟨head,rest⟩ := result
      rw [hread] at h
      simp only [bind, Except.bind] at h
      split at h
      · cases h
      · next request _ =>
        split_ifs at h
        · cases hparse : parseHostPort ((splitWhitespace
              ((splitCrlf request.toList).headD [])).getD 1 []) 443 with
          | error err =>
            rw [hparse] at h
            cases h
          | ok target' =>
            rw [hparse] at h
            cases h
            intro c hc
            have hmem := parseHostPort_mem hparse c hc
            rw [List.getD_eq_getElem?_getD] at hmem
            cases hword : (splitWhitespace ((splitCrlf request.toList).headD []))[1]? with
            | none =>
              rw [hword] at hmem
              exact absurd hmem List.not_mem_nil
            | some word =>
              rw [hword] at hmem
              exact (mem_splitWhitespace (List.mem_of_getElem? hword)).2 c hmem
        · cases hparse : parseHttpForwardTarget ((splitWhitespace
              ((splitCrlf request.toList).headD [])).getD 1 []) request.toList with
          | error err =>
            rw [hparse] at h
            cases h
          | ok result =>
            rw [hparse] at h
            cases h

theorem handleClient_connectRequest {target : TargetAddress}
    (h : ∀ c ∈ target.host.toList, isWhitespace c = false) (up : Bytes) :
    handleClient (utf8 (connectRequest target) ++ up) =
      if (utf8 (connectRequest target)).length ≤ 65536 then
        (parseHostPort (authority target).toList 443).map fun target => ⟨.httpConnect, target, up⟩
      else .error .headerTooLarge := by
  have hauthority := authority_plain h
  rw [connectRequest_lines]
  refine handleClient_connect (by decide) (by decide +kernel) ?_ ?_ up
  · refine List.forall_mem_cons.mpr ⟨⟨by decide,forall_mem_of_all (by decide)⟩,
      List.forall_mem_cons.mpr ⟨hauthority,?_⟩⟩
    exact List.forall_mem_singleton.mpr ⟨by decide,forall_mem_of_all (by decide)⟩
  · refine List.forall_mem_cons.mpr ⟨⟨by simp,fun c hc => ?_⟩,?_⟩
    · rcases List.mem_append.mp hc with hc | hc
      · have hname : ∀ d ∈ "Host: ".toList, d ≠ '\r' ∧ d ≠ '\n' := forall_mem_of_all (by decide)
        exact hname c hc
      · exact plain_crlf (hauthority.2 c hc)
    · exact List.forall_mem_singleton.mpr ⟨by decide +kernel,forall_mem_of_all (by decide +kernel)⟩

/-- The stream is handed on from behind the first empty line, if what stands in front of it is a
short text that begins with one of the two answers. -/
theorem tunnelThrough_iff (stream rest : Bytes) :
    tunnelThrough stream = .ok rest ↔ ∃ text : String, stream = utf8 text.toList ++ rest ∧
      (utf8 text.toList).length ≤ 8192 ∧ EndsFirst endOfHead [] (utf8 text.toList) ∧
      ("HTTP/1.1 200".toList <+: text.toList ∨ "HTTP/1.0 200".toList <+: text.toList) := by
  rw [tunnelThrough, readResponseHead]
  generalize "HTTP/1.1 200".toList = answer
  generalize "HTTP/1.0 200".toList = oldAnswer
  have haccepts : ∀ text : Text, (!answer.isPrefixOf text && !oldAnswer.isPrefixOf text) = false ↔
      answer <+: text ∨ oldAnswer <+: text := by
    intro text
    rw [← List.isPrefixOf_iff_prefix, ← List.isPrefixOf_iff_prefix]
    cases answer.isPrefixOf text <;> cases oldAnswer.isPrefixOf text <;> simp
  constructor
  · intro h
    cases hread : readHead endOfHead 8192 [] stream with
    | error err =>
      rw [hread] at h
      cases err <;> cases h
    | ok result =>
      obtain ⟨head,behind⟩ := result
      obtain ⟨hsplit,hlen,hfirst⟩ := readHead_ok_iff.mp hread
      rw [hread] at h
      cases htext : fromUtf8 head with
      | error err =>
        simp only [htext, Except.map] at h
        cases h
      | ok text =>
        simp only [htext, Except.map] at h
        split_ifs at h with hrefused
        obtain rfl := Except.ok.inj h
        obtain rfl := utf8_of_fromUtf8 htext
        exact ⟨text,hsplit,hlen,hfirst,(haccepts _).mp (Bool.not_eq_true _ ▸ hrefused)⟩
  · rintro ⟨text,rfl,hlen,hfirst,haccept⟩
    have hread : readHead endOfHead 8192 [] (utf8 text.toList ++ rest) =
        .ok (utf8 text.toList, rest) := readHead_ok_iff.mpr ⟨rfl,hlen,hfirst⟩
    simp only [hread, fromUtf8_utf8, Except.map, (haccepts _).mpr haccept]
    rfl

/-- The answer of the inbound ends where its only empty line does. -/
theorem established_endsFirst : EndsFirst endOfHead [] established := by
  have hfronts : ∀ front ∈ established.inits, endOfHead.isSuffixOf front = true →
      front = established := by decide +kernel
  refine ⟨by decide,List.isSuffixOf_iff_suffix.mp (by decide +kernel),?_⟩
  intro front hfront _ hends
  exact hfronts front ((List.mem_inits _ _).mpr hfront) (List.isSuffixOf_iff_suffix.mpr hends)

theorem handleClient_passedOn_iff (target : TargetAddress) (up : Bytes) :
    handleClient (utf8 (connectRequest target) ++ up) = .ok ⟨.httpConnect, target, up⟩ ↔
      PassedOn target := by
  constructor
  · intro h
    have hword := handleClient_oneWord h
    rw [handleClient_connectRequest hword] at h
    split_ifs at h with hshort
    cases hparse : parseHostPort (authority target).toList 443 with
    | error err =>
      rw [hparse] at h
      cases h
    | ok target' =>
      rw [hparse] at h
      cases h
      obtain ⟨hcolon,hbracket⟩ := (parseHostPort_authority_iff _ 443).mp hparse
      exact ⟨hword,hcolon,hbracket,hshort⟩
  · rintro ⟨hword,hcolon,hbracket,hshort⟩
    rw [handleClient_connectRequest hword, if_pos hshort,
      (parseHostPort_authority_iff target 443).mpr ⟨hcolon,hbracket⟩]
    rfl

/-- Through a proxy that is another kernel, a target arrives as what it is exactly if it is one
word without a colon that does not begin with a bracket, and the request is not too long. Nothing
of the upload is lost to the head, and nothing of the download to the answer. -/
theorem http_chain_iff (target : TargetAddress) (up down : Bytes) :
    (handleClient (utf8 (connectRequest target) ++ up) = .ok ⟨.httpConnect, target, up⟩ ↔
      PassedOn target) ∧
    tunnelThrough (established ++ down) = .ok down := by
  refine ⟨handleClient_passedOn_iff target up,(tunnelThrough_iff _ _).mpr
    ⟨"HTTP/1.1 200 Connection Established\r\n\r\n",rfl,?_,established_endsFirst,
      .inl (List.isPrefixOf_iff_prefix.mp (by decide +kernel))⟩⟩
  decide +kernel

/-! ## A SOCKS client in front -/

/-- `Display for TargetAddress` does not put brackets around an address that needs them. -/
def HasPlainText : Host → Prop
  | .ip ip => ip.isIpv4 = true
  | .domain name => (∀ c ∈ name.toList, isWhitespace c = false) ∧ ':' ∉ name.toList ∧
      name.toList.head? ≠ some '['

theorem ipv4_text_length (ip : Ipv4Addr) : (utf8 ip.text).length ≤ 255 := by
  have hascii : ∀ c ∈ ip.text, c.utf8Size = 1 := by
    intro c hc
    rcases Ipv4Addr.mem_text hc with rfl | hdigit
    · decide
    · exact isDigit_size hdigit
  have hdigits : ∀ b : UInt8, (Nat.toDigits 10 b.toNat).length ≤ 3 := fun b =>
    (Nat.length_toDigits_le_iff (by decide) (by decide)).mpr (Nat.lt_trans b.toNat_lt (by decide))
  rw [utf8_length_ascii hascii]
  obtain ⟨octets,hsize⟩ := ip
  match octets, hsize with
  | [a, b, c, d], _ =>
    have ha := hdigits a
    have hb := hdigits b
    have hc := hdigits c
    have hd := hdigits d
    simp [Ipv4Addr.text, List.intercalate, List.intersperse]
    omega

theorem utf8_port_length (port : UInt16) : (utf8 (Nat.toDigits 10 port.toNat)).length ≤ 5 := by
  rw [utf8_length_ascii fun c hc =>
    isDigit_size (Nat.isDigit_of_mem_toDigits (by decide) (by decide) hc)]
  exact (Nat.length_toDigits_le_iff (by decide) (by decide)).mpr
    (Nat.lt_trans port.toNat_lt (by decide))

theorem utf8_twice_length {front middle back text : Text} {n m : Nat}
    (hliterals : (utf8 front).length + (utf8 middle).length + (utf8 back).length ≤ n)
    (htext : (utf8 text).length ≤ m) :
    (utf8 (front ++ text ++ middle ++ text ++ back)).length ≤ n + 2 * m := by
  simp only [utf8_append, List.length_append]
  omega

theorem connectRequest_short {target : TargetAddress}
    (h : (utf8 target.host.toList).length ≤ 255) : (utf8 (connectRequest target)).length ≤ 65536 := by
  have hauthority : (utf8 (authority target).toList).length ≤ 261 := by
    have hport := utf8_port_length target.port
    have hcolon : (utf8 [':']).length = 1 := by decide
    rw [authority_toList, ← List.singleton_append, utf8_append, utf8_append, List.length_append,
      List.length_append, hcolon]
    omega
  exact Nat.le_trans (utf8_twice_length (n := 100) (by decide +kernel) hauthority) (by decide)

theorem passedOn_iff {endpoint : Endpoint} (h : endpoint.host.Fits) :
    PassedOn (targetOf endpoint) ↔ HasPlainText endpoint.host := by
  obtain ⟨host,port⟩ := endpoint
  cases host with
  | ip address =>
    cases address with
    | v4 ip =>
      have htext : (targetOf ⟨.ip (.v4 ip), port⟩).host.toList = ip.text := String.toList_ofList
      have hplain : ∀ c, c = '.' ∨ c.isDigit = true →
          isWhitespace c = false ∧ c ≠ ':' ∧ c ≠ '[' := by
        rintro c (rfl | hdigit)
        · decide
        · refine ⟨digit_notWhite hdigit,?_,?_⟩ <;> rintro rfl <;> cases hdigit
      refine iff_of_true ⟨?_,?_,?_,?_⟩ rfl
      · rw [htext]
        exact fun c hc => (hplain c (Ipv4Addr.mem_text hc)).1
      · rw [htext]
        exact fun hc => (hplain _ (Ipv4Addr.mem_text hc)).2.1 rfl
      · rw [htext]
        exact fun hc => (hplain _ (Ipv4Addr.mem_text (List.mem_of_mem_head? hc))).2.2 rfl
      · exact connectRequest_short (htext ▸ ipv4_text_length ip)
    | v6 ip =>
      refine iff_of_false (fun hpassed => hpassed.noColon ?_) nofun
      have htext : (targetOf ⟨.ip (.v6 ip), port⟩).host.toList = ip.text := String.toList_ofList
      rw [htext]
      exact Ipv6Addr.colon_mem_text ip
  | domain name =>
    exact ⟨fun hpassed => ⟨hpassed.oneWord,hpassed.noColon,hpassed.noBracket⟩,
      fun hplain => ⟨hplain.1,hplain.2.1,hplain.2.2,connectRequest_short h⟩⟩

/-- The target of a SOCKS client that is tunnelled through an HTTP proxy of the same kind is the
one the proxy connects to exactly if it is an IPv4 address or a name that is a plain text. -/
theorem socks_over_http {connect : TargetAddress → Except String Unit} {version : UInt8}
    {client left : List Bytes} {target : TargetAddress}
    (h : (handleSocks5 connect version client).outcome = .ok (.tunnel target left)) :
    ∃ endpoint : Endpoint, endpoint.host.Fits ∧ target = targetOf endpoint ∧
      (handleClient (utf8 (connectRequest target) ++ left.flatten) =
        .ok ⟨.httpConnect, target, left.flatten⟩ ↔ HasPlainText endpoint.host) := by
  obtain ⟨⟨more,_,_,_,endpoint,hfits,rfl,_⟩,_⟩ :=
    (handleSocks5_tunnel_iff connect version client target left.flatten).mp ⟨left,h,rfl⟩
  exact ⟨endpoint,hfits,rfl,(handleClient_passedOn_iff _ _).trans (passedOn_iff hfits)⟩

/-- A request for `127.0.0.1:80` in three pieces, with a byte behind it. -/
theorem socks_over_http_loopback : ∃ endpoint : Endpoint, endpoint.host.Fits ∧
    ⟨"127.0.0.1", 80⟩ = targetOf endpoint ∧
      (handleClient (utf8 (connectRequest ⟨"127.0.0.1", 80⟩) ++ [[], [120]].flatten) =
        .ok ⟨.httpConnect, ⟨"127.0.0.1", 80⟩, [[], [120]].flatten⟩ ↔ HasPlainText endpoint.host) :=
  @socks_over_http (fun _ => .ok ()) 5 [[1], [0, 5, 1, 0], [1, 127, 0, 0, 1, 0, 80], [120]] _ _
    (by decide +kernel)

end AtlasKernel.Adapter
