import AtlasKernel.Lib.SegmentReader
import AtlasKernel.Lib.Text

/-! The response to a POST on a kept HTTP/1 connection: its head is read and its body
drained, and if that went well the next request goes out on the same connection.
Source: `adapter/shadowsocks/transport.rs`. -/
namespace AtlasKernel.Xhttp
open AtlasKernel.Lib

abbrev Text := List Char

abbrev Stream := List Bytes

/-- The errors with what their texts show. -/
inductive ResponseError where
  | unexpectedEof
  | rejected (line : Text)
  | responseTooLarge
  | lineTooLarge
  | invalidContentLength (value : Text)
  | bodyTooLarge
  | invalidChunkSize (text : Text)
  | chunkedBodyTooLarge
  | invalidChunkDelimiter
  | closeDelimitedBodyTooLarge
deriving DecidableEq, Repr

abbrev Result (β : Type) := Except ResponseError β

def usizeMax : Nat := 18446744073709551615

def xhttpH1MaxResponseDrainBytes : Nat := 1024 * 1024

/-! ## The head -/

/-- `text.starts_with("HTTP/1.1 2")`, or 1.0 -/
def accepts (text : Text) : Bool :=
  "HTTP/1.1 2".toList.isPrefixOf text || "HTTP/1.0 2".toList.isPrefixOf text

/-- The loop; `room` is what is left of the 8192 bytes. -/
def readHttpResponseHeadersLoop : Nat → Bytes → Stream → Result (Text × Stream)
  | 0, _, _ => .error .responseTooLarge
  | room+1, response, stream =>
    match readOne stream with
    | none => .error .unexpectedEof
    | some (byte, stream) =>
      let response := response ++ [byte]
      if [13, 10, 13, 10].isSuffixOf response then
        let text := fromUtf8Lossy response
        if accepts text then .ok (text, stream) else .error (.rejected ((lines text).headD []))
      else readHttpResponseHeadersLoop room response stream

def readHttpResponseHeadersGeneric (stream : Stream) : Result (Text × Stream) :=
  readHttpResponseHeadersLoop 8192 [] stream

/-- The lines behind the first one that have a colon. -/
def httpHeaderLines (headers : Text) : List (Text × Text) :=
  ((lines headers).drop 1).filterMap fun line => splitOnce ':' (trimEndMatches '\r' line)

def httpHeaderValues (headers : Text) (name : String) : List Text :=
  (httpHeaderLines headers).filterMap fun line =>
    if toAsciiLowercase line.1 = name.toList then some (trim line.2) else none

def httpHeaderContains (headers : Text) (name needle : String) : Bool :=
  (httpHeaderValues headers name).any fun value =>
    (value.splitOn ',').any fun part => toAsciiLowercase (trim part) = needle.toList

def httpContentLength (headers : Text) : Result (Option Nat) :=
  (httpHeaderValues headers "content-length").foldl (fun length value =>
    match length with
    | .error err => .error err
    | .ok _ =>
      match parseUnsigned usizeMax (trim value) with
      | none => .error (.invalidContentLength value)
      | some n => .ok (some n)) (.ok none)

def httpResponseHasNoBody (headers : Text) : Bool :=
  let status := ((splitWhitespace ((lines headers).headD [])).getD 1 [])
  let status := (parseUnsigned 65535 status).getD 0
  (100 ≤ status && status ≤ 199) || status = 204 || status = 304

/-! ## The body -/

/-- The loop of `drain_exact_http_body`, a buffer of 8192 bytes at a time. -/
def drainExactLoop (remaining : Nat) (stream : Stream) : Result Stream :=
  if 0 < remaining then
    match readExact (min remaining 8192) stream with
    | none => .error .unexpectedEof
    | some (_, stream) => drainExactLoop (remaining - min remaining 8192) stream
  else .ok stream
termination_by remaining
decreasing_by omega

def drainExactHttpBody (stream : Stream) (remaining : Nat) : Result Stream :=
  if xhttpH1MaxResponseDrainBytes < remaining then .error .bodyTooLarge
  else drainExactLoop remaining stream

def readHttp1LineLoop : Nat → Bytes → Stream → Result (Bytes × Stream)
  | 0, _, _ => .error .lineTooLarge
  | room+1, line, stream =>
    match readOne stream with
    | none => .error .unexpectedEof
    | some (byte, stream) =>
      let line := line ++ [byte]
      if byte = 10 then .ok (line, stream) else readHttp1LineLoop room line stream

def readHttp1Line (stream : Stream) (maxLen : Nat) : Result (Text × Stream) :=
  match readHttp1LineLoop maxLen [] stream with
  | .error err => .error err
  | .ok (line, stream) => .ok (fromUtf8Lossy line, stream)

theorem readHttp1LineLoop_flatten {room : Nat} {line line' : Bytes} {stream rest : Stream}
    (h : readHttp1LineLoop room line stream = .ok (line', rest)) :
    rest.flatten.length < stream.flatten.length := by
  induction room generalizing line stream with
  | zero => cases h
  | succ room ih =>
    rw [readHttp1LineLoop] at h
    split at h
    case h_1 => cases h
    case h_2 byte next hone =>
      have hflat := congrArg List.length (readOne_flatten hone)
      rw [List.length_cons] at hflat
      dsimp only at h
      split at h
      · cases h
        omega
      · have hlt := ih h
        omega

theorem readHttp1Line_flatten {stream rest : Stream} {maxLen : Nat} {text : Text}
    (h : readHttp1Line stream maxLen = .ok (text, rest)) :
    rest.flatten.length < stream.flatten.length := by
  rw [readHttp1Line] at h
  split at h
  case h_1 => cases h
  case h_2 line rest' hline =>
    cases h
    exact readHttp1LineLoop_flatten hline

theorem drainExactLoop_flatten {remaining : Nat} {stream rest : Stream}
    (h : drainExactLoop remaining stream = .ok rest) :
    rest.flatten.length ≤ stream.flatten.length := by
  induction remaining, stream using drainExactLoop.induct with
  | case1 remaining stream hpos hread =>
    rw [drainExactLoop, if_pos hpos, hread] at h
    cases h
  | case2 remaining stream hpos bytes next hread ih =>
    rw [drainExactLoop, if_pos hpos, hread] at h
    have hflat := congrArg List.length (readExact_flatten hread).1
    rw [List.length_append] at hflat
    exact (ih h).trans (by omega)
  | case3 remaining stream hzero =>
    rw [drainExactLoop, if_neg hzero] at h
    cases h
    exact le_rfl

theorem drainExactHttpBody_flatten {remaining : Nat} {stream rest : Stream}
    (h : drainExactHttpBody stream remaining = .ok rest) :
    rest.flatten.length ≤ stream.flatten.length := by
  rw [drainExactHttpBody] at h
  split at h
  · cases h
  · exact drainExactLoop_flatten h

/-- The loop over the trailers. -/
def drainTrailers (stream : Stream) : Result Stream :=
  match _h : readHttp1Line stream 8192 with
  | .error err => .error err
  | .ok (trailer, rest) =>
    if trailer = ['\r', '\n'] ∨ trailer = ['\n'] then .ok rest else drainTrailers rest
termination_by stream.flatten.length
decreasing_by exact readHttp1Line_flatten _h

/-- `line.split(';').next()`, trimmed -/
def chunkSizeText (line : Text) : Text := trimEndMatches '\r' (trim (line.takeWhile (· ≠ ';')))

/-- The data of a chunk and the line end behind it. -/
def drainChunk (stream : Stream) (size : Nat) : Result Stream :=
  match drainExactHttpBody stream size with
  | .error err => .error err
  | .ok stream =>
    match readExact 2 stream with
    | none => .error .unexpectedEof
    | some (crlf, stream) => if crlf = [13, 10] then .ok stream else .error .invalidChunkDelimiter

theorem drainChunk_flatten {size : Nat} {stream rest : Stream} (h : drainChunk stream size = .ok rest) :
    rest.flatten.length ≤ stream.flatten.length := by
  rw [drainChunk] at h
  split at h
  case h_1 => cases h
  case h_2 next hexact =>
    have hle := drainExactHttpBody_flatten hexact
    split at h
    case h_1 => cases h
    case h_2 crlf rest' hread =>
      have hflat := congrArg List.length (readExact_flatten hread).1
      rw [List.length_append] at hflat
      split at h
      · cases h
        omega
      · cases h

/-- The loop of `drain_http1_chunked_body`. -/
def drainChunks (drained : Nat) (stream : Stream) : Result Stream :=
  match _h : readHttp1Line stream 4096 with
  | .error err => .error err
  | .ok (line, rest) =>
    match parseHex usizeMax (chunkSizeText line) with
    | none => .error (.invalidChunkSize (chunkSizeText line))
    | some 0 => drainTrailers rest
    | some size =>
      if xhttpH1MaxResponseDrainBytes < drained + size then .error .chunkedBodyTooLarge
      else
        match _hchunk : drainChunk rest size with
        | .error err => .error err
        | .ok rest' => drainChunks (drained + size) rest'
termination_by stream.flatten.length
decreasing_by exact Nat.lt_of_le_of_lt (drainChunk_flatten _hchunk) (readHttp1Line_flatten _h)

def drainHttp1ChunkedBody (stream : Stream) : Result Stream := drainChunks 0 stream

/-- The loop of `drain_http_body_until_eof`; a read that comes too late is an error too. -/
def drainUntilEofLoop (drained : Nat) : Stream → Result Stream
  | [] => .ok []
  | piece :: stream =>
    if xhttpH1MaxResponseDrainBytes < drained + piece.length then .error .closeDelimitedBodyTooLarge
    else drainUntilEofLoop (drained + piece.length) stream

def drainHttpBodyUntilEof (stream : Stream) : Result Stream := drainUntilEofLoop 0 stream

/-- `true` is that the connection may carry the next request. -/
def drainHttp1ResponseBody (stream : Stream) (headers : Text) : Result (Bool × Stream) :=
  let reusable := !httpHeaderContains headers "connection" "close"
  if httpResponseHasNoBody headers then .ok (reusable, stream)
  else if httpHeaderContains headers "transfer-encoding" "chunked" then
    (drainHttp1ChunkedBody stream).map fun stream => (reusable, stream)
  else
    match httpContentLength headers with
    | .error err => .error err
    | .ok (some length) => (drainExactHttpBody stream length).map fun stream => (reusable, stream)
    | .ok none =>
      if httpHeaderContains headers "connection" "close" then
        (drainHttpBodyUntilEof stream).map fun stream => (false, stream)
      else .ok (true, stream)

/-- What `send_http1_xhttp_post_on_stream` does once its request is out. -/
def readHttp1Response (stream : Stream) : Result (Bool × Stream) :=
  match readHttpResponseHeadersGeneric stream with
  | .error err => .error err
  | .ok (headers, stream) => drainHttp1ResponseBody stream headers

/-! ## What a head declares -/

/-- Where the body of a response ends. A head that contradicts itself leaves only the end of
the connection. -/
inductive Framing where
  | length (n : Nat)
  | chunked
  | untilClose
deriving DecidableEq, Repr

def isBlank (c : Char) : Bool := c = ' ' || c = '\t'

def trimBlanks (text : Text) : Text := ((text.dropWhile isBlank).reverse.dropWhile isBlank).reverse

/-- The members of a field, with those of every line that has its name. -/
def fieldMembers (headers : Text) (name : String) : List Text :=
  (((httpHeaderLines headers).filter fun line => toAsciiLowercase line.1 = name.toList).flatMap
    fun line => (line.2.splitOn ',').map trimBlanks).filter (· ≠ [])

def decimalNumber (value : Nat) : Text → Option Nat
  | [] => some value
  | c :: cs => (digitValue c).bind fun digit => decimalNumber (value * 10 + digit) cs

/-- Three digits between the version and a blank. -/
def statusCode (headers : Text) : Option Nat :=
  let word := (headers.drop 9).takeWhile fun c => c ≠ ' ' && c ≠ '\r' && c ≠ '\n'
  if word.length = 3 then decimalNumber 0 word else none

def isBodiless (status : Nat) : Bool := (100 ≤ status && status < 200) || status = 204 || status = 304

/-- A status without a body comes first, then `Transfer-Encoding`, whose last coding must be
`chunked`, then a `Content-Length` all of whose values agree. -/
def framing (headers : Text) : Framing :=
  if (statusCode headers).any isBodiless then .length 0
  else
    match fieldMembers headers "transfer-encoding" with
    | coding :: codings =>
      if toAsciiLowercase ((coding :: codings).getLastD []) = "chunked".toList ∧
          "HTTP/1.1".toList.isPrefixOf headers then .chunked
      else .untilClose
    | [] =>
      match fieldMembers headers "content-length" with
      | [] => .untilClose
      | member :: members =>
        match decimalNumber 0 member with
        | none => .untilClose
        | some n =>
          if ∀ m ∈ members, decimalNumber 0 m = some n then .length n else .untilClose

def hexNumber (value : Nat) : Text → Option Nat
  | [] => some value
  | c :: cs => (hexDigitValue c).bind fun digit => hexNumber (value * 16 + digit) cs

def crlf : Bytes := [13, 10]

/-- The line of a chunk of `n` bytes, its end included. -/
def SizeLine (n : Nat) (line : Bytes) : Prop :=
  ∃ digits blanks extensions, line = utf8 digits ++ (blanks ++ extensions) ++ crlf ∧
    digits ≠ [] ∧ hexNumber 0 digits = some n ∧ (∀ b ∈ blanks, b = 32 ∨ b = 9) ∧
    (extensions = [] ∨ extensions.head? = some 59) ∧ 10 ∉ extensions

/-- A line begins with the name of a field. -/
inductive Trailers : Bytes → Prop where
  | done : Trailers crlf
  | field {b : UInt8} {line more : Bytes} : 32 < b → b < 127 → 10 ∉ line → Trailers more →
      Trailers (b :: line ++ crlf ++ more)

inductive Chunked : Bytes → Prop where
  | last {line trailers : Bytes} : SizeLine 0 line → Trailers trailers → Chunked (line ++ trailers)
  | chunk {line data more : Bytes} : data ≠ [] → SizeLine data.length line → Chunked more →
      Chunked (line ++ data ++ crlf ++ more)

/-- `body` is a whole body when `next` follows it on the connection. -/
def Framing.Ends (body next : Bytes) : Framing → Prop
  | .length n => body.length = n
  | .chunked => Chunked body
  | .untilClose => next = []

/-- `head` is read as `headers`, and nothing of it is left. -/
def HeadOf (head : Bytes) (headers : Text) : Prop :=
  ∃ rest, readHttpResponseHeadersGeneric [head] = .ok (headers, rest) ∧ rest.flatten = []

/-- Whatever the body and however it arrives, a connection that is used again stands at the
end of the response. -/
def ReuseSafe (head : Bytes) (headers : Text) : Prop :=
  ∀ (body next : Bytes) (stream rest : Stream), (framing headers).Ends body next →
    stream.flatten = head ++ (body ++ next) → readHttp1Response stream = .ok (true, rest) →
      rest.flatten = next

/-- The response is never followed by another one, or its body is drained by the framing that
its head declares. -/
def DrainsAsDeclared (headers : Text) : Prop :=
  httpHeaderContains headers "connection" "close" = true ∨
    if httpResponseHasNoBody headers then framing headers = .length 0
    else if httpHeaderContains headers "transfer-encoding" "chunked" then framing headers = .chunked
    else
      match httpContentLength headers with
      | .error _ => True
      | .ok (some n) => n ≤ xhttpH1MaxResponseDrainBytes → framing headers = .length n
      | .ok none => framing headers = .length 0

/-! ## Reading -/

theorem headers_loop {room : Nat} {response tail : Bytes} {headers : Text} {stream stream' rest : Stream}
    (h : readHttpResponseHeadersLoop room response stream = .ok (headers, rest))
    (hrest : rest.flatten = []) (hstream' : stream'.flatten = stream.flatten ++ tail) :
    ∃ rest', readHttpResponseHeadersLoop room response stream' = .ok (headers, rest') ∧
      rest'.flatten = tail := by
  induction room generalizing response stream stream' with
  | zero => cases h
  | succ room ih =>
    rw [readHttpResponseHeadersLoop] at h
    split at h
    case h_1 => cases h
    case h_2 byte next hone =>
      have hflat := readOne_flatten hone
      rw [hflat, List.cons_append] at hstream'
      obtain ⟨next',hone',hnext'⟩ := readOne_of_cons hstream'
      rw [readHttpResponseHeadersLoop, hone']
      dsimp only at h ⊢
      split at h
      case isTrue hend =>
        split at h
        case isTrue hok =>
          cases h
          rw [if_pos hend, if_pos hok]
          refine ⟨next', rfl, ?_⟩
          rw [hnext', hrest, List.nil_append]
        case isFalse => cases h
      case isFalse hend =>
        rw [if_neg hend]
        exact ih h hnext'

/-- A head is read in the same way whatever follows it. -/
theorem HeadOf.read {head tail : Bytes} {headers : Text} (h : HeadOf head headers) {stream : Stream}
    (hstream : stream.flatten = head ++ tail) :
    ∃ rest, readHttpResponseHeadersGeneric stream = .ok (headers, rest) ∧ rest.flatten = tail := by
  obtain ⟨rest,hread,hrest⟩ := h
  refine headers_loop hread hrest ?_
  rw [hstream, List.flatten_singleton]

theorem line_loop {line tail : Bytes} (hline : 10 ∉ line) (room : Nat) (before : Bytes) {stream : Stream}
    (hstream : stream.flatten = line ++ 10 :: tail) :
    (room ≤ line.length ∧ ∃ err, readHttp1LineLoop room before stream = .error err) ∨
      ∃ rest, readHttp1LineLoop room before stream = .ok (before ++ line ++ [10], rest) ∧
        rest.flatten = tail := by
  induction line generalizing room before stream with
  | nil =>
    cases room with
    | zero => exact .inl ⟨le_rfl, _, rfl⟩
    | succ room =>
      obtain ⟨rest,hone,hrest⟩ := readOne_of_cons hstream
      refine .inr ⟨rest, ?_, hrest⟩
      rw [readHttp1LineLoop, hone, List.append_nil]
      rfl
  | cons b bs ih =>
    cases room with
    | zero => exact .inl ⟨Nat.zero_le _, _, rfl⟩
    | succ room =>
      obtain ⟨rest,hone,hrest⟩ := readOne_of_cons hstream
      have hb : b ≠ 10 := fun heq => hline (heq ▸ List.mem_cons_self)
      have htail := ih (fun hmem => hline (List.mem_cons_of_mem _ hmem)) room (before ++ [b]) hrest
      rw [readHttp1LineLoop, hone]
      dsimp only
      rw [if_neg hb, List.append_cons before b bs]
      exact htail.imp_left fun hlong => ⟨Nat.succ_le_succ hlong.1, hlong.2⟩

theorem readHttp1Line_cases {line tail : Bytes} (hline : 10 ∉ line) (maxLen : Nat) {stream : Stream}
    (hstream : stream.flatten = line ++ 10 :: tail) :
    (maxLen ≤ line.length ∧ ∃ err, readHttp1Line stream maxLen = .error err) ∨
      ∃ rest, readHttp1Line stream maxLen = .ok (fromUtf8Lossy (line ++ [10]), rest) ∧
        rest.flatten = tail := by
  obtain ⟨hlong,err,herr⟩ | ⟨rest,hread,hrest⟩ := line_loop hline maxLen [] hstream
  · exact .inl ⟨hlong, err, by rw [readHttp1Line, herr]⟩
  · refine .inr ⟨rest, ?_, hrest⟩
    rw [readHttp1Line, hread]
    rfl

theorem readExact_drop {n : Nat} {stream : Stream} (h : n ≤ stream.flatten.length) :
    ∃ bytes rest, readExact n stream = some (bytes, rest) ∧ rest.flatten = stream.flatten.drop n := by
  have hsplit : stream.flatten = stream.flatten.take n ++ stream.flatten.drop n :=
    (List.take_append_drop ..).symm
  obtain ⟨rest,hread,hrest⟩ := readExact_of_append hsplit
  rw [List.length_take_of_le h] at hread
  exact ⟨_, rest, hread, hrest⟩

theorem drainExactLoop_drop {n : Nat} {stream : Stream} (h : n ≤ stream.flatten.length) :
    ∃ rest, drainExactLoop n stream = .ok rest ∧ rest.flatten = stream.flatten.drop n := by
  induction n, stream using drainExactLoop.induct with
  | case1 n stream hpos hread =>
    obtain ⟨bytes,rest,hread',_⟩ := readExact_drop ((Nat.min_le_left n 8192).trans h)
    rw [hread] at hread'
    cases hread'
  | case2 n stream hpos bytes next hread ih =>
    obtain ⟨bytes',next',hread',hnext⟩ := readExact_drop ((Nat.min_le_left n 8192).trans h)
    rw [hread] at hread'
    cases hread'
    obtain ⟨rest,hdrain,hrest⟩ := ih (by rw [hnext, List.length_drop]; omega)
    refine ⟨rest, ?_, ?_⟩
    · rw [drainExactLoop, if_pos hpos, hread]
      exact hdrain
    · rw [hrest, hnext, List.drop_drop]
      congr 1
      omega
  | case3 n stream hzero =>
    refine ⟨stream, by rw [drainExactLoop, if_neg hzero], ?_⟩
    rw [Nat.eq_zero_of_not_pos hzero, List.drop_zero]

/-- Data of the announced length is drained, or it is too much of it. -/
theorem drainExactHttpBody_cases {data tail : Bytes} {stream : Stream}
    (hstream : stream.flatten = data ++ tail) :
    (xhttpH1MaxResponseDrainBytes < data.length ∧
      drainExactHttpBody stream data.length = .error .bodyTooLarge) ∨
    ∃ rest, drainExactHttpBody stream data.length = .ok rest ∧ rest.flatten = tail := by
  rw [drainExactHttpBody]
  split
  case isTrue hlarge => exact .inl ⟨hlarge, rfl⟩
  case isFalse =>
    have hle : data.length ≤ stream.flatten.length := by
      rw [hstream, List.length_append]
      exact Nat.le_add_right ..
    obtain ⟨rest,hdrain,hrest⟩ := drainExactLoop_drop hle
    exact .inr ⟨rest, hdrain, by rw [hrest, hstream, List.drop_left]⟩

/-! ## The chunked body -/

theorem hexNumber_ascii {c : Char} {digit : Nat} (h : hexDigitValue c = some digit) :
    c.toNat < 128 ∧ isWhitespace c = false ∧ c ≠ ';' ∧ c ≠ '+' := by
  have hle : c.toNat ≤ 102 ∧ 48 ≤ c.toNat ∧ ¬ (58 ≤ c.toNat ∧ c.toNat ≤ 64) := by
    rw [hexDigitValue] at h
    split at h
    case isTrue hd =>
      have hlow : 48 ≤ c.toNat := hd.1
      have hhigh : c.toNat ≤ 57 := hd.2
      omega
    case isFalse =>
      split at h
      case isTrue hd =>
        have hlow : 97 ≤ c.toNat := hd.1
        have hhigh : c.toNat ≤ 102 := hd.2
        omega
      case isFalse =>
        split at h
        case isTrue hd =>
          have hlow : 65 ≤ c.toNat := hd.1
          have hhigh : c.toNat ≤ 70 := hd.2
          omega
        case isFalse => cases h
  obtain ⟨hle,hge,hmid⟩ := hle
  refine ⟨by omega, ?_, ?_, ?_⟩
  · have hmem : c.toNat ∉ [0x09, 0x0a, 0x0b, 0x0c, 0x0d, 0x20, 0x85, 0xa0, 0x1680, 0x2028, 0x2029,
        0x202f, 0x205f, 0x3000] := by
      simp only [List.mem_cons, List.not_mem_nil, or_false]
      omega
    rw [isWhitespace, decide_eq_false hmem, decide_eq_false (by omega : ¬ 0x2000 ≤ c.toNat)]
    rfl
  · rintro rfl
    exact hmid (by decide)
  · rintro rfl
    exact absurd hge (by decide)

theorem hexNumber_digits {value n : Nat} {digits : Text} (h : hexNumber value digits = some n) :
    ∀ c ∈ digits, ∃ digit, hexDigitValue c = some digit := by
  induction digits generalizing value with
  | nil => simp
  | cons c cs ih =>
    obtain ⟨digit,hdigit,hrest⟩ := Option.bind_eq_some_iff.mp h
    exact List.forall_mem_cons.mpr ⟨⟨digit, hdigit⟩, ih hrest⟩

theorem parseHexDigits_value {value n m : Nat} {digits : Text} (h : hexNumber value digits = some n)
    (hparse : parseHexDigits usizeMax value digits = some m) : m = n := by
  induction digits generalizing value with
  | nil =>
    cases h
    cases hparse
    rfl
  | cons c cs ih =>
    obtain ⟨digit,hdigit,hrest⟩ := Option.bind_eq_some_iff.mp h
    rw [parseHexDigits, hdigit] at hparse
    dsimp only at hparse
    split at hparse
    · cases hparse
    · exact ih hrest hparse

theorem parseHex_value {n m : Nat} {digits : Text} (hne : digits ≠ [])
    (h : hexNumber 0 digits = some n) (hparse : parseHex usizeMax digits = some m) : m = n := by
  rw [parseHex.eq_def] at hparse
  split at hparse
  case h_1 => exact absurd rfl hne
  case h_2 c cs =>
    obtain ⟨digit,hdigit⟩ := hexNumber_digits h '+' List.mem_cons_self
    exact absurd rfl (hexNumber_ascii hdigit).2.2.2
  case h_3 => exact parseHexDigits_value h hparse

/-- The code finds the digits of a size line. -/
theorem chunkSizeText_line {n : Nat} {digits : Text} {blanks extensions : Bytes}
    (h : hexNumber 0 digits = some n) (hblanks : ∀ b ∈ blanks, b = 32 ∨ b = 9)
    (hextensions : extensions = [] ∨ extensions.head? = some 59) :
    chunkSizeText (fromUtf8Lossy (utf8 digits ++ (blanks ++ extensions) ++ crlf)) = digits := by
  have hdigit : ∀ c ∈ digits, c.toNat < 128 ∧ isWhitespace c = false ∧ c ≠ ';' ∧ c ≠ '+' := by
    intro c hc
    obtain ⟨digit,hvalue⟩ := hexNumber_digits h c hc
    exact hexNumber_ascii hvalue
  -- what stands behind the digits, up to the semicolon
  have hbehind : ∃ white, (∀ c ∈ white, isWhitespace c = true) ∧
      (fromUtf8Lossy (blanks ++ extensions ++ crlf)).takeWhile (· ≠ ';') = white := by
    refine ⟨_, ?_, rfl⟩
    induction blanks with
    | nil =>
      obtain rfl | hsemi := hextensions
      · have hends : (fromUtf8Lossy ([] ++ [] ++ crlf)).takeWhile (· ≠ ';') = [Char.ofNat 13, Char.ofNat 10] := rfl
        rw [hends, List.forall_mem_cons, List.forall_mem_singleton]
        exact ⟨rfl, rfl⟩
      · obtain ⟨b,bs,rfl⟩ := List.exists_cons_of_ne_nil
          (fun hnil : extensions = [] => by rw [hnil] at hsemi; cases hsemi)
        cases hsemi
        intro c hc
        rw [List.nil_append, List.cons_append, fromUtf8Lossy.eq_def] at hc
        cases hc
    | cons b bs ih =>
      obtain ⟨hb,hbs⟩ := List.forall_mem_cons.mp hblanks
      rw [List.cons_append, List.cons_append, fromUtf8Lossy.eq_def]
      obtain rfl | rfl := hb
      · exact List.forall_mem_cons.mpr ⟨by decide, ih hbs⟩
      · exact List.forall_mem_cons.mpr ⟨by decide, ih hbs⟩
  obtain ⟨white,hwhite,htake⟩ := hbehind
  have hfront : (fromUtf8Lossy (utf8 digits ++ (blanks ++ extensions) ++ crlf)).takeWhile (· ≠ ';') =
      digits ++ white := by
    rw [List.append_assoc, fromUtf8Lossy_ascii (fun c hc => (hdigit c hc).1), ← htake]
    exact List.takeWhile_append_of_pos fun c hc => decide_eq_true (hdigit c hc).2.2.1
  rw [chunkSizeText, hfront, trim_append (fun c hc => (hdigit c hc).2.1) hwhite, trimEndMatches]
  cases hrev : digits.reverse with
  | nil => rw [List.reverse_eq_nil_iff.mp hrev]; rfl
  | cons d ds =>
    have hd : d ≠ '\r' := by
      rintro rfl
      exact absurd (hdigit '\r' (List.mem_reverse.mp (hrev ▸ List.mem_cons_self))).2.1 (by decide)
    rw [List.dropWhile_cons_of_neg (by simpa using hd), ← hrev, List.reverse_reverse]

theorem SizeLine.cut {n : Nat} {line : Bytes} (h : SizeLine n line) :
    ∃ front digits, line = front ++ [10] ∧ 10 ∉ front ∧ digits ≠ [] ∧ hexNumber 0 digits = some n ∧
      chunkSizeText (fromUtf8Lossy line) = digits := by
  obtain ⟨digits,blanks,extensions,rfl,hne,hnumber,hblanks,hsemi,hlf⟩ := h
  refine ⟨utf8 digits ++ (blanks ++ extensions) ++ [13], digits, ?_, ?_, hne, hnumber,
    chunkSizeText_line hnumber hblanks hsemi⟩
  · rw [List.append_assoc (utf8 digits ++ _)]
    rfl
  · have hdigits : 10 ∉ utf8 digits := by
      intro hmem
      obtain ⟨c,hc,hbyte⟩ := List.mem_flatMap.mp hmem
      obtain ⟨digit,hvalue⟩ := hexNumber_digits hnumber c hc
      obtain ⟨hascii,hwhite,_⟩ := hexNumber_ascii hvalue
      rw [utf8EncodeChar_ascii hascii, List.mem_singleton] at hbyte
      have hnat := congrArg UInt8.toNat hbyte
      rw [UInt8.toNat_ofNat', Nat.mod_eq_of_lt (by omega)] at hnat
      rw [isWhitespace, ← hnat] at hwhite
      exact absurd hwhite (by decide)
    have hblank : 10 ∉ blanks := fun hmem => by
      obtain heq | heq := hblanks 10 hmem
      · cases heq
      · cases heq
    simp only [List.mem_append, not_or]
    exact ⟨⟨hdigits, hblank, hlf⟩, by decide⟩

theorem drainTrailers_eq (stream : Stream) :
    drainTrailers stream =
      match readHttp1Line stream 8192 with
      | .error err => .error err
      | .ok (trailer, rest) =>
        if trailer = ['\r', '\n'] ∨ trailer = ['\n'] then .ok rest else drainTrailers rest := by
  rw [drainTrailers]
  split
  case h_1 herr => rw [herr]
  case h_2 hok => rw [hok]

theorem drainTrailers_ends {bytes tail : Bytes} (h : Trailers bytes) {stream rest : Stream}
    (hstream : stream.flatten = bytes ++ tail) (hdrain : drainTrailers stream = .ok rest) :
    rest.flatten = tail := by
  induction h generalizing stream with
  | done =>
    rw [drainTrailers_eq] at hdrain
    obtain ⟨_,err,herr⟩ | ⟨next,hread,hnext⟩ :=
      @readHttp1Line_cases [13] _ (by decide) 8192 _ hstream
    · rw [herr] at hdrain
      cases hdrain
    · rw [hread] at hdrain
      change (if _ then _ else _) = _ at hdrain
      rw [if_pos (.inl rfl)] at hdrain
      cases hdrain
      exact hnext
  | @field b line more hlow hhigh hline _ ih =>
    have hb : b ≠ 10 := by
      rintro rfl
      exact absurd hlow (by decide)
    have hfree : 10 ∉ b :: (line ++ [13]) := by
      simp only [List.mem_cons, List.mem_append, not_or, List.not_mem_nil]
      exact ⟨Ne.symm hb, hline, by decide, not_false⟩
    have hsplit : stream.flatten = b :: (line ++ [13]) ++ 10 :: (more ++ tail) := by
      rw [hstream]
      simp [crlf]
    rw [drainTrailers_eq] at hdrain
    obtain ⟨_,err,herr⟩ | ⟨next,hread,hnext⟩ := readHttp1Line_cases hfree 8192 hsplit
    · rw [herr] at hdrain
      cases hdrain
    · have hlt := UInt8.lt_iff_toNat_lt.mp hhigh
      have hgt := UInt8.lt_iff_toNat_lt.mp hlow
      have hascii : b < 0x80 := UInt8.lt_iff_toNat_lt.mpr (hlt.trans (by decide))
      -- the text begins with the first byte of the name
      have hhead : ∀ cs, fromUtf8Lossy (b :: (line ++ [13]) ++ [10]) ≠ '\r' :: cs ∧
          fromUtf8Lossy (b :: (line ++ [13]) ++ [10]) ≠ '\n' :: cs := by
        intro cs
        have hnat : (Char.ofNat b.toNat).toNat = b.toNat := ofNat_ascii (hlt.trans (by decide))
        rw [List.cons_append, fromUtf8Lossy.eq_def]
        dsimp only
        rw [if_pos hascii]
        refine ⟨fun heq => ?_, fun heq => ?_⟩
        · rw [(List.cons.inj heq).1] at hnat
          rw [← hnat] at hgt
          exact absurd hgt (by decide)
        · rw [(List.cons.inj heq).1] at hnat
          rw [← hnat] at hgt
          exact absurd hgt (by decide)
      rw [hread] at hdrain
      change (if _ then _ else _) = _ at hdrain
      rw [if_neg (not_or.mpr ⟨(hhead _).1, (hhead _).2⟩)] at hdrain
      exact ih hnext hdrain

theorem drainChunks_eq (drained : Nat) (stream : Stream) :
    drainChunks drained stream =
      match readHttp1Line stream 4096 with
      | .error err => .error err
      | .ok (line, rest) =>
        match parseHex usizeMax (chunkSizeText line) with
        | none => .error (.invalidChunkSize (chunkSizeText line))
        | some 0 => drainTrailers rest
        | some size =>
          if xhttpH1MaxResponseDrainBytes < drained + size then .error .chunkedBodyTooLarge
          else
            match drainChunk rest size with
            | .error err => .error err
            | .ok rest' => drainChunks (drained + size) rest' := by
  rw [drainChunks]
  split
  case h_1 herr => rw [herr]
  case h_2 line rest hok =>
    rw [hok]
    dsimp only
    split
    · rfl
    · rfl
    case h_3 size _ _ =>
      split
      · rfl
      · split
        case h_1 herr => rw [herr]
        case h_2 hchunk => rw [hchunk]

theorem drainChunk_cases {data tail : Bytes} {stream : Stream}
    (hstream : stream.flatten = data ++ crlf ++ tail) :
    (∃ err, drainChunk stream data.length = .error err) ∨
      ∃ rest, drainChunk stream data.length = .ok rest ∧ rest.flatten = tail := by
  rw [List.append_assoc] at hstream
  rw [drainChunk]
  obtain ⟨_,herr⟩ | ⟨next,hdrain,hnext⟩ := drainExactHttpBody_cases hstream
  · exact .inl ⟨_, by rw [herr]⟩
  · obtain ⟨rest,hread,hrest⟩ := readExact_of_append hnext
    have htwo : readExact 2 next = some (crlf, rest) := hread
    refine .inr ⟨rest, ?_, hrest⟩
    rw [hdrain]
    dsimp only
    rw [htwo]
    rfl

/-- A chunked body is drained up to its end. -/
theorem drainChunks_ends {body tail : Bytes} (h : Chunked body) {drained : Nat} {stream rest : Stream}
    (hstream : stream.flatten = body ++ tail) (hdrain : drainChunks drained stream = .ok rest) :
    rest.flatten = tail := by
  induction h generalizing drained stream with
  | @last line trailers hline htrailers =>
    obtain ⟨front,digits,rfl,hfree,hne,hnumber,htext⟩ := hline.cut
    have hsplit : stream.flatten = front ++ 10 :: (trailers ++ tail) := by
      rw [hstream]
      simp
    rw [drainChunks_eq] at hdrain
    obtain ⟨_,err,herr⟩ | ⟨next,hread,hnext⟩ := readHttp1Line_cases hfree 4096 hsplit
    · rw [herr] at hdrain
      cases hdrain
    · rw [hread] at hdrain
      dsimp only at hdrain
      rw [htext] at hdrain
      cases hparse : parseHex usizeMax digits with
      | none =>
        rw [hparse] at hdrain
        cases hdrain
      | some size =>
        obtain rfl := parseHex_value hne hnumber hparse
        rw [hparse] at hdrain
        exact drainTrailers_ends htrailers hnext hdrain
  | @chunk line data more hdata hline _ ih =>
    obtain ⟨front,digits,rfl,hfree,hne,hnumber,htext⟩ := hline.cut
    have hsplit : stream.flatten = front ++ 10 :: (data ++ crlf ++ (more ++ tail)) := by
      rw [hstream]
      simp
    rw [drainChunks_eq] at hdrain
    obtain ⟨_,err,herr⟩ | ⟨next,hread,hnext⟩ := readHttp1Line_cases hfree 4096 hsplit
    · rw [herr] at hdrain
      cases hdrain
    · rw [hread] at hdrain
      dsimp only at hdrain
      rw [htext] at hdrain
      cases hparse : parseHex usizeMax digits with
      | none =>
        rw [hparse] at hdrain
        cases hdrain
      | some size =>
        obtain rfl := parseHex_value hne hnumber hparse
        rw [hparse] at hdrain
        split at hdrain
        case h_1 => cases hdrain
        case h_2 hzero => exact absurd (List.length_eq_zero_iff.mp (Option.some.inj hzero)) hdata
        case h_3 size _ hsize =>
          cases hsize
          split at hdrain
          · cases hdrain
          · obtain ⟨err,herr⟩ | ⟨rest',hchunk,hrest'⟩ := drainChunk_cases hnext
            · rw [herr] at hdrain
              cases hdrain
            · rw [hchunk] at hdrain
              exact ih hrest' hdrain

/-! ## Reuse -/

/-- What is left when the connection may be used again. -/
theorem drain_true_iff {stream rest : Stream} {headers : Text} :
    drainHttp1ResponseBody stream headers = .ok (true, rest) ↔
      httpHeaderContains headers "connection" "close" = false ∧
        if httpResponseHasNoBody headers then rest = stream
        else if httpHeaderContains headers "transfer-encoding" "chunked" then
          drainChunks 0 stream = .ok rest
        else
          match httpContentLength headers with
          | .error _ => False
          | .ok (some n) => drainExactHttpBody stream n = .ok rest
          | .ok none => rest = stream := by
  have hmap : ∀ (reusable : Bool) (r : Result Stream),
      (r.map fun stream => (reusable, stream)) = .ok (true, rest) ↔ reusable = true ∧ r = .ok rest := by
    intro reusable r
    cases r with
    | error err => simp [Except.map]
    | ok s => simp [Except.map]
  rw [drainHttp1ResponseBody]
  cases hclose : httpHeaderContains headers "connection" "close" with
  | true =>
    simp only [Bool.not_true, Bool.true_eq_false, false_and, iff_false]
    split
    · simp
    · split
      · rw [hmap]
        simp
      · split
        · simp
        · rw [hmap]
          simp
        · rw [if_pos trivial, hmap]
          simp
  | false =>
    simp only [Bool.not_false, true_and]
    split
    · simp [eq_comm]
    · split
      · rw [hmap, drainHttp1ChunkedBody]
        simp
      · split
        · simp
        · rw [hmap]
          simp
        · rw [if_neg Bool.false_ne_true]
          simp [eq_comm]

theorem readHttp1Response_of_head {head : Bytes} {headers : Text} (h : HeadOf head headers)
    {stream : Stream} {tail : Bytes} (hstream : stream.flatten = head ++ tail) :
    ∃ next, next.flatten = tail ∧ readHttp1Response stream = drainHttp1ResponseBody next headers := by
  obtain ⟨next,hread,hnext⟩ := h.read hstream
  exact ⟨next, hnext, by rw [readHttp1Response, hread]⟩

theorem chunked_last {digits : Text} (hne : digits ≠ []) (hzero : hexNumber 0 digits = some 0) :
    Chunked (utf8 digits ++ crlf ++ crlf) := by
  refine .last ⟨digits, [], [], ?_, hne, hzero, by simp, .inl rfl, by simp⟩ .done
  simp

/-- The end of a chunked body that has nothing before it. -/
theorem last_drained {front tail : Bytes} {drained : Nat} {stream : Stream} (hfree : 10 ∉ front)
    (hshort : front.length < 4096)
    (hzero : parseHex usizeMax (chunkSizeText (fromUtf8Lossy (front ++ [10]))) = some 0)
    (hstream : stream.flatten = front ++ 10 :: (crlf ++ tail)) :
    ∃ rest, drainChunks drained stream = .ok rest ∧ rest.flatten = tail := by
  obtain ⟨hlong,_⟩ | ⟨next,hread,hnext⟩ := readHttp1Line_cases hfree 4096 hstream
  · omega
  · obtain ⟨hlong,_⟩ | ⟨rest,hread',hrest⟩ := @readHttp1Line_cases [13] _ (by decide) 8192 _ hnext
    · exact absurd hlong (by decide)
    · refine ⟨rest, ?_, hrest⟩
      rw [drainChunks_eq, hread]
      dsimp only
      rw [hzero]
      change drainTrailers next = _
      rw [drainTrailers_eq, hread']
      exact if_pos (.inl rfl)

/-- One of two ends of a chunked body has not `n` bytes. -/
theorem exists_last (n : Nat) : ∃ digits : Text, digits ≠ [] ∧ hexNumber 0 digits = some 0 ∧
    (utf8 digits).length + 4 ≠ n ∧ 10 ∉ utf8 digits ++ [13] ∧ (utf8 digits ++ [13]).length < 4096 ∧
    parseHex usizeMax (chunkSizeText (fromUtf8Lossy (utf8 digits ++ [13] ++ [10]))) = some 0 := by
  by_cases hn : n = 5
  · subst hn
    exact ⟨['0', '0'], by decide, by decide, by decide, by decide, by decide, by decide⟩
  · exact ⟨['0'], by decide, by decide, fun h => hn h.symm, by decide, by decide, by decide⟩

/-- A framing other than by `n` bytes has a body of another length. -/
theorem Framing.exists_other {f : Framing} {n : Nat} (h : f ≠ .length n) :
    ∃ body next, f.Ends body next ∧ body.length ≠ n ∧ n ≤ (body ++ next).length := by
  cases f with
  | length m =>
    refine ⟨List.replicate m 0, List.replicate n 0, List.length_replicate, ?_, ?_⟩
    · rw [List.length_replicate]
      rintro rfl
      exact h rfl
    · rw [List.length_append, List.length_replicate, List.length_replicate]
      exact Nat.le_add_left ..
  | chunked =>
    obtain ⟨digits,hne,hzero,hlen,_⟩ := exists_last n
    refine ⟨utf8 digits ++ crlf ++ crlf, List.replicate n 0, chunked_last hne hzero, ?_, ?_⟩
    · rwa [List.length_append, List.length_append]
    · rw [List.length_append, List.length_replicate (n := n)]
      exact Nat.le_add_left ..
  | untilClose =>
    refine ⟨List.replicate (n + 1) 0, [], rfl, ?_, ?_⟩
    · rw [List.length_replicate]
      exact Nat.succ_ne_self n
    · rw [List.append_nil, List.length_replicate]
      exact Nat.le_succ n

/-- A framing other than in chunks has a body that does not end where a chunked one would. -/
theorem Framing.exists_not_chunked {f : Framing} (h : f ≠ .chunked) :
    ∃ digits tail body next, f.Ends body next ∧ body ++ next = utf8 digits ++ [13] ++ 10 :: (crlf ++ tail) ∧
      tail ≠ next ∧ 10 ∉ utf8 digits ++ [13] ∧ (utf8 digits ++ [13]).length < 4096 ∧
      parseHex usizeMax (chunkSizeText (fromUtf8Lossy (utf8 digits ++ [13] ++ [10]))) = some 0 := by
  cases f with
  | chunked => exact absurd rfl h
  | length m =>
    obtain ⟨digits,_,_,hlen,hlast⟩ := exists_last m
    let whole := utf8 digits ++ [13] ++ 10 :: (crlf ++ List.replicate m 0)
    have hwhole : whole.length = (utf8 digits).length + 4 + m := by
      simp only [whole, crlf, List.length_append, List.length_cons, List.length_nil,
        List.length_replicate]
      omega
    refine ⟨digits, List.replicate m 0, whole.take m, whole.drop m, ?_, List.take_append_drop .., ?_,
      hlast⟩
    · exact List.length_take_of_le (by omega)
    · intro heq
      have hcount := congrArg List.length heq
      rw [List.length_replicate, List.length_drop] at hcount
      omega
  | untilClose =>
    obtain ⟨digits,_,_,_,hlast⟩ := exists_last 0
    exact ⟨digits, [0], utf8 digits ++ [13] ++ 10 :: (crlf ++ [0]), [], rfl, List.append_nil _, by decide,
      hlast⟩

/-- Where a body is drained by a length, the head must say that length. -/
theorem ReuseSafe.length {head : Bytes} {headers : Text} (hsafe : ReuseSafe head headers)
    (h : HeadOf head headers) {n : Nat}
    (hdrain : ∀ stream : Stream, n ≤ stream.flatten.length → ∃ rest,
      drainHttp1ResponseBody stream headers = .ok (true, rest) ∧
        rest.flatten = stream.flatten.drop n) : framing headers = .length n := by
  by_contra hother
  obtain ⟨body,next,hends,hne,hle⟩ := Framing.exists_other hother
  have hstream : [head ++ (body ++ next)].flatten = head ++ (body ++ next) :=
    List.flatten_singleton
  obtain ⟨stream,hflat,hread⟩ := readHttp1Response_of_head h hstream
  obtain ⟨rest,hok,hrest⟩ := hdrain stream (hflat ▸ hle)
  have hnext := hsafe body next _ rest hends hstream (hread.trans hok)
  have hcount := congrArg List.length (hnext.symm.trans hrest)
  rw [hflat, List.length_drop, List.length_append] at hcount
  rw [List.length_append] at hle
  omega

theorem ReuseSafe.chunked {head : Bytes} {headers : Text} (hsafe : ReuseSafe head headers)
    (h : HeadOf head headers) (hclose : httpHeaderContains headers "connection" "close" = false)
    (hbody : ¬ httpResponseHasNoBody headers)
    (hchunked : httpHeaderContains headers "transfer-encoding" "chunked") :
    framing headers = .chunked := by
  by_contra hother
  obtain ⟨digits,tail,body,next,hends,hwhole,hne,hfree,hshort,hzero⟩ :=
    Framing.exists_not_chunked hother
  have hstream : [head ++ (body ++ next)].flatten = head ++ (body ++ next) :=
    List.flatten_singleton
  obtain ⟨stream,hflat,hread⟩ := readHttp1Response_of_head h hstream
  obtain ⟨rest,hok,hrest⟩ := last_drained hfree hshort hzero (hflat.trans hwhole)
  refine hne (hrest.symm.trans (hsafe body next _ rest hends hstream (hread.trans ?_)))
  refine drain_true_iff.mpr ⟨hclose, ?_⟩
  rw [if_neg hbody, if_pos hchunked]
  exact hok

theorem ReuseSafe.drains {head : Bytes} {headers : Text} (hsafe : ReuseSafe head headers)
    (h : HeadOf head headers) : DrainsAsDeclared headers := by
  rw [DrainsAsDeclared]
  cases hclose : httpHeaderContains headers "connection" "close" with
  | true => exact .inl rfl
  | false =>
    refine .inr ?_
    split
    case isTrue hbody =>
      refine hsafe.length h fun stream _ => ⟨stream, drain_true_iff.mpr ⟨hclose, ?_⟩, rfl⟩
      rw [if_pos hbody]
    case isFalse hbody =>
      split
      case isTrue hchunked => exact hsafe.chunked h hclose hbody hchunked
      case isFalse hchunked =>
        cases hlen : httpContentLength headers with
        | error err => exact trivial
        | ok length =>
          cases length with
          | none =>
            refine hsafe.length h fun stream _ => ⟨stream, drain_true_iff.mpr ⟨hclose, ?_⟩, rfl⟩
            rw [if_neg hbody, if_neg hchunked, hlen]
          | some n =>
            refine fun hle => hsafe.length h fun stream hcount => ?_
            obtain ⟨rest,hok,hrest⟩ := drainExactLoop_drop hcount
            refine ⟨rest, drain_true_iff.mpr ⟨hclose, ?_⟩, hrest⟩
            rw [if_neg hbody, if_neg hchunked, hlen]
            dsimp only
            rw [drainExactHttpBody, if_neg (Nat.not_lt.mpr hle)]
            exact hok

/-- A body of the declared length is drained to its end, and a longer one is an error. -/
theorem drainExact_ends {n : Nat} {body next : Bytes} {stream rest : Stream}
    (hends : n ≤ xhttpH1MaxResponseDrainBytes → body.length = n)
    (hflat : stream.flatten = body ++ next)
    (hdrain : drainExactHttpBody stream n = .ok rest) : rest.flatten = next := by
  have hle : n ≤ xhttpH1MaxResponseDrainBytes := by
    by_contra hlarge
    rw [drainExactHttpBody, if_pos (Nat.not_le.mp hlarge)] at hdrain
    cases hdrain
  obtain rfl : body.length = n := hends hle
  obtain ⟨_,herr⟩ | ⟨rest',hok,hrest'⟩ := drainExactHttpBody_cases hflat
  · rw [herr] at hdrain
    cases hdrain
  · rw [hok] at hdrain
    cases hdrain
    exact hrest'

theorem DrainsAsDeclared.safe {head : Bytes} {headers : Text} (hsound : DrainsAsDeclared headers)
    (h : HeadOf head headers) : ReuseSafe head headers := by
  intro body next stream rest hends hstream hread
  obtain ⟨stream',hflat,heq⟩ := readHttp1Response_of_head h hstream
  obtain ⟨hclose,hdrain⟩ := drain_true_iff.mp (heq.symm.trans hread)
  have hframing := hsound.resolve_left (by rw [hclose]; exact Bool.false_ne_true)
  split at hframing
  case isTrue hbody =>
    rw [if_pos hbody] at hdrain
    rw [hframing] at hends
    rw [hdrain, hflat, List.length_eq_zero_iff.mp hends, List.nil_append]
  case isFalse hbody =>
    rw [if_neg hbody] at hdrain
    split at hframing
    case isTrue hchunked =>
      rw [if_pos hchunked] at hdrain
      rw [hframing] at hends
      exact drainChunks_ends hends hflat hdrain
    case isFalse hchunked =>
      rw [if_neg hchunked] at hdrain
      cases hlen : httpContentLength headers with
      | error err =>
        rw [hlen] at hdrain
        cases hdrain
      | ok length =>
        rw [hlen] at hframing hdrain
        cases length with
        | none =>
          dsimp only at hframing hdrain
          rw [hframing] at hends
          rw [hdrain, hflat, List.length_eq_zero_iff.mp hends, List.nil_append]
        | some n =>
          dsimp only at hframing hdrain
          refine drainExact_ends (fun hle => ?_) hflat hdrain
          rw [hframing hle] at hends
          exact hends

def okHead : Bytes := utf8 "HTTP/1.1 200 OK\r\nContent-Length: 2\r\n\r\n".toList

end AtlasKernel.Xhttp
