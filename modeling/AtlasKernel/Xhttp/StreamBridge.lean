import AtlasKernel.Lib.PollIo
import AtlasKernel.Xhttp.HttpResponse

/-! The HTTP/1 bridges of XHTTP: what the local side writes goes out as a chunked body, and
what follows the head of the response goes to the local side as it is. Source:
`adapter/shadowsocks/transport.rs`, `adapter/vless.rs`. -/
namespace AtlasKernel.Xhttp
open AtlasKernel.Lib

/-- `spawn_http1_xhttp_chunked_bridge`, `spawn_http1_xhttp_split_stream_bridge` and
`spawn_http1_xhttp_packet_bridge` of Shadowsocks, and `spawn_http1_chunked_bridge` of VLESS.
The packet bridge has no upload of this kind. -/
inductive Http1Bridge where
  | xhttpChunked
  | xhttpSplitStream
  | xhttpPacket
  | vlessChunked
deriving DecidableEq, Repr

/-! ## Upload -/

def flowCopyBufferSize : Nat := 128 * 1024

/-- `format!("{n:x}\r\n")` -/
def chunkHeader (n : Nat) : Bytes := utf8 (Nat.toDigits 16 n) ++ crlf

/-- What the upload loop writes for the reads of the local side; a read of no bytes is its
end. -/
def uploadBody : List (IoResult Bytes) → Bytes
  | [] => []
  | .ok [] :: _ => [0x30] ++ crlf ++ crlf
  | .ok (b :: bs) :: reads => chunkHeader (b :: bs).length ++ (b :: bs) ++ crlf ++ uploadBody reads
  | .error _ :: _ => []

/-! ## Download -/

/-- The loop of `read_http_response_headers` of VLESS, which takes any status. -/
def readHttpResponseHeadersLoop' : Nat → Bytes → Stream → Result (Text × Stream)
  | 0, _, _ => .error .responseTooLarge
  | room+1, response, stream =>
    match readOne stream with
    | none => .error .unexpectedEof
    | some (byte, stream) =>
      let response := response ++ [byte]
      if [13, 10, 13, 10].isSuffixOf response then .ok (fromUtf8Lossy response, stream)
      else readHttpResponseHeadersLoop' room response stream

def readHttpResponseHeaders (stream : Stream) : Result (Text × Stream) :=
  readHttpResponseHeadersLoop' 8192 [] stream

def Http1Bridge.readHead : Http1Bridge → Stream → Result (Text × Stream)
  | .vlessChunked => readHttpResponseHeaders
  | .xhttpChunked | .xhttpSplitStream | .xhttpPacket => readHttpResponseHeadersGeneric

theorem readHead_vless : Http1Bridge.vlessChunked.readHead = readHttpResponseHeadersLoop' 8192 [] := by
  unfold Http1Bridge.readHead readHttpResponseHeaders
  rfl

theorem readHead_shadowsocks (bridge : Http1Bridge) (h : bridge ≠ .vlessChunked) :
    bridge.readHead = readHttpResponseHeadersLoop 8192 [] := by
  unfold Http1Bridge.readHead readHttpResponseHeadersGeneric
  cases bridge with
  | vlessChunked => exact absurd rfl h
  | xhttpChunked | xhttpSplitStream | xhttpPacket => rfl

/-- What the download task has copied when so much of the response has come. -/
def Http1Bridge.download (bridge : Http1Bridge) (stream : Stream) : Bytes :=
  match bridge.readHead stream with
  | .error _ => []
  | .ok (_, stream) => stream.flatten

/-! ## Bodies and what they stand for -/

/-- A chunked body and the data of its chunks. -/
inductive Dechunks : Bytes → Bytes → Prop where
  | last {line trailers : Bytes} : SizeLine 0 line → Trailers trailers → Dechunks (line ++ trailers) []
  | chunk {line data more rest : Bytes} : data ≠ [] → SizeLine data.length line → Dechunks more rest →
      Dechunks (line ++ data ++ crlf ++ more) (data ++ rest)

theorem Dechunks.chunked {body data : Bytes} (h : Dechunks body data) : Chunked body := by
  induction h with
  | last hline htrailers => exact .last hline htrailers
  | chunk hne hline _ ih => exact .chunk hne hline ih

/-- `body` is a whole body that stands for `decoded` when `next` follows it. -/
def Framing.Decodes (body next decoded : Bytes) : Framing → Prop
  | .length n => body.length = n ∧ decoded = body
  | .chunked => Dechunks body decoded
  | .untilClose => next = [] ∧ decoded = body

/-- `head` is read as `headers`, and nothing of it is left. -/
def Http1Bridge.ReadsHead (bridge : Http1Bridge) (head : Bytes) (headers : Text) : Prop :=
  ∃ rest, bridge.readHead [head] = .ok (headers, rest) ∧ rest.flatten = []

/-- A line with its size stands at the front of a body in one way only. -/
theorem SizeLine.unique {n m : Nat} {line line' rest rest' : Bytes} (h : SizeLine n line)
    (h' : SizeLine m line') (heq : line ++ rest = line' ++ rest') :
    line = line' ∧ n = m ∧ rest = rest' := by
  obtain ⟨front,digits,rfl,hfree,_,hnumber,htext⟩ := h.cut
  obtain ⟨front',digits',rfl,hfree',_,hnumber',htext'⟩ := h'.cut
  rw [List.append_assoc, List.append_assoc, List.singleton_append, List.singleton_append] at heq
  have hcut {bs : Bytes} (hbs : 10 ∉ bs) (more : Bytes) :
      (bs ++ 10 :: more).takeWhile (· ≠ 10) = bs := by
    have hkeep : ∀ b ∈ bs, decide (b ≠ 10) = true := fun b hb =>
      decide_eq_true fun hlf => hbs (hlf ▸ hb)
    rw [List.takeWhile_append_of_pos hkeep]
    simp
  have hfront : front = front' := by
    rw [← hcut hfree rest, heq, hcut hfree']
  subst hfront
  rw [htext] at htext'
  subst htext'
  rw [hnumber, Option.some.injEq] at hnumber'
  exact ⟨rfl,hnumber',(List.cons.inj (List.append_cancel_left heq)).2⟩

theorem Dechunks.unique {body data data' : Bytes} (h : Dechunks body data)
    (h' : Dechunks body data') : data = data' := by
  induction h generalizing data' with
  | @last line trailers hline _ =>
    generalize hbody : line ++ trailers = body at h'
    cases h' with
    | last => rfl
    | @chunk line' data more rest hne hline' _ =>
      rw [List.append_assoc, List.append_assoc] at hbody
      obtain ⟨_,hzero,_⟩ := hline.unique hline' hbody
      exact absurd (List.length_eq_zero_iff.mp hzero.symm) hne
  | @chunk line data more rest hne hline _ ih =>
    generalize hbody : line ++ data ++ crlf ++ more = body at h'
    rw [List.append_assoc, List.append_assoc] at hbody
    cases h' with
    | last hline' _ =>
      obtain ⟨_,hzero,_⟩ := hline.unique hline' hbody
      exact absurd (List.length_eq_zero_iff.mp hzero) hne
    | @chunk line' data' more' rest' _ hline' hmore' =>
      rw [List.append_assoc, List.append_assoc] at hbody
      obtain ⟨_,hlen,hrest⟩ := hline.unique hline' hbody
      obtain ⟨rfl,hrest'⟩ := List.append_inj hrest hlen
      rw [List.append_cancel_left hrest'] at ih
      rw [ih hmore']

/-- The chunks of a body take room of their own. -/
theorem Dechunks.length_lt {body data : Bytes} (h : Dechunks body data) : data.length < body.length := by
  induction h with
  | last hline _ =>
    obtain ⟨digits,blanks,extensions,rfl,_⟩ := hline
    have hcrlf : crlf.length = 2 := rfl
    simp only [List.length_append, List.length_nil]
    omega
  | chunk _ _ _ ih =>
    simp only [List.length_append]
    omega

/-! ## What is sent decodes to what was written -/

theorem hexNumber_append (value : Nat) (as bs : Text) :
    hexNumber value (as ++ bs) = (hexNumber value as).bind fun value => hexNumber value bs := by
  induction as generalizing value with
  | nil => rfl
  | cons c cs ih =>
    rw [List.cons_append, hexNumber, hexNumber]
    cases hexDigitValue c with
    | none => rfl
    | some digit => exact ih _

theorem hexDigitValue_digitChar : ∀ d < 16, hexDigitValue (Nat.digitChar d) = some d := by decide

theorem hexNumber_toDigits (n : Nat) : hexNumber 0 (Nat.toDigits 16 n) = some n := by
  induction n using Nat.strongRecOn with
  | ind n ih =>
    by_cases hn : n < 16
    · rw [Nat.toDigits_of_lt_base hn, hexNumber, hexDigitValue_digitChar n hn]
      simp [hexNumber]
    · have hlow : n % 16 < 16 := Nat.mod_lt _ (by decide)
      rw [Nat.toDigits_of_base_le (by decide) (by omega), hexNumber_append, ih (n / 16) (by omega),
        Option.bind_some, hexNumber, hexDigitValue_digitChar _ hlow]
      simp only [Option.bind_some, hexNumber]
      congr 1
      omega

theorem sizeLine_chunkHeader (n : Nat) : SizeLine n (chunkHeader n) := by
  have hne : Nat.toDigits 16 n ≠ [] := List.length_pos_iff.mp Nat.length_toDigits_pos
  exact ⟨Nat.toDigits 16 n,[],[],by simp [chunkHeader],hne,hexNumber_toDigits n,by simp,.inl rfl,by simp⟩

theorem uploadBody_append {pieces : List Bytes} (h : ∀ p ∈ pieces, p ≠ [])
    (reads : List (IoResult Bytes)) :
    uploadBody (pieces.map .ok ++ reads) = uploadBody (pieces.map .ok) ++ uploadBody reads := by
  induction pieces with
  | nil => rfl
  | cons p ps ih =>
    obtain ⟨hp,hps⟩ := List.forall_mem_cons.mp h
    obtain ⟨b,bs,rfl⟩ := List.exists_cons_of_ne_nil hp
    simp only [List.map_cons, List.cons_append, uploadBody, ih hps, List.append_assoc]

theorem uploadBody_dechunks {pieces : List Bytes} (h : ∀ p ∈ pieces, p ≠ []) :
    Dechunks (uploadBody (pieces.map .ok ++ [.ok []])) pieces.flatten := by
  induction pieces with
  | nil =>
    have hlast : SizeLine 0 ([0x30] ++ crlf) := sizeLine_chunkHeader 0
    exact .last hlast .done
  | cons p ps ih =>
    obtain ⟨hp,hps⟩ := List.forall_mem_cons.mp h
    obtain ⟨b,bs,rfl⟩ := List.exists_cons_of_ne_nil hp
    exact .chunk hp (sizeLine_chunkHeader _) (ih hps)

/-! ## What comes back -/

theorem headers_loop' {room : Nat} {response tail : Bytes} {headers : Text}
    {stream stream' rest : Stream}
    (h : readHttpResponseHeadersLoop' room response stream = .ok (headers, rest))
    (hrest : rest.flatten = []) (hstream' : stream'.flatten = stream.flatten ++ tail) :
    ∃ rest', readHttpResponseHeadersLoop' room response stream' = .ok (headers, rest') ∧
      rest'.flatten = tail := by
  induction room generalizing response stream stream' with
  | zero => cases h
  | succ room ih =>
    rw [readHttpResponseHeadersLoop'] at h
    split at h
    case h_1 => cases h
    case h_2 byte next hone =>
      rw [readOne_flatten hone, List.cons_append] at hstream'
      obtain ⟨next',hone',hnext'⟩ := readOne_of_cons hstream'
      rw [readHttpResponseHeadersLoop', hone']
      dsimp only at h ⊢
      split at h
      case isTrue hend =>
        cases h
        rw [if_pos hend]
        refine ⟨next',rfl,?_⟩
        rw [hnext', hrest, List.nil_append]
      case isFalse hend =>
        rw [if_neg hend]
        exact ih h hnext'

/-- A head is read in the same way whatever follows it. -/
theorem Http1Bridge.ReadsHead.read {bridge : Http1Bridge} {head tail : Bytes} {headers : Text}
    (h : bridge.ReadsHead head headers) {stream : Stream} (hstream : stream.flatten = head ++ tail) :
    ∃ rest, bridge.readHead stream = .ok (headers, rest) ∧ rest.flatten = tail := by
  have hstream' : stream.flatten = [head].flatten ++ tail := by
    rw [hstream, List.flatten_singleton]
  obtain ⟨rest,hread,hrest⟩ := h
  cases bridge with
  | vlessChunked =>
    rw [readHead_vless] at hread ⊢
    exact headers_loop' hread hrest hstream'
  | xhttpChunked | xhttpSplitStream | xhttpPacket =>
    rw [readHead_shadowsocks _ (by simp)] at hread ⊢
    exact headers_loop hread hrest hstream'

/-- What follows the head is copied as it is. -/
theorem Http1Bridge.download_head {bridge : Http1Bridge} {head tail : Bytes} {headers : Text}
    (h : bridge.ReadsHead head headers) {stream : Stream} (hstream : stream.flatten = head ++ tail) :
    bridge.download stream = tail := by
  obtain ⟨rest,hread,hrest⟩ := h.read hstream
  rw [download, hread]
  exact hrest

theorem download_decodes_iff {bridge : Http1Bridge} {head body next decoded : Bytes} {headers : Text}
    (h : bridge.ReadsHead head headers) (hbody : (framing headers).Decodes body next decoded)
    {stream : Stream} (hstream : stream.flatten = head ++ (body ++ next)) :
    bridge.download stream = decoded ↔ framing headers ≠ .chunked ∧ next = [] := by
  rw [Http1Bridge.download_head h hstream]
  generalize framing headers = declared at hbody
  cases declared with
  | length n =>
    obtain ⟨_,rfl⟩ := hbody
    simp
  | untilClose =>
    obtain ⟨rfl,rfl⟩ := hbody
    simp
  | chunked =>
    have hlt := Dechunks.length_lt hbody
    refine iff_of_false ?_ (by simp)
    rintro rfl
    rw [List.length_append] at hlt
    omega

def chunkedHead : Bytes := utf8 "HTTP/1.1 200 OK\r\nTransfer-Encoding: chunked\r\n\r\n".toList

end AtlasKernel.Xhttp
