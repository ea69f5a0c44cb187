import AtlasKernel.Lib.Text
import AtlasKernel.Shadowsocks.SimpleObfsHttp

/-! The request that hides the first bytes of an SSR connection: its path is the head of the
payload, and its header is the user's text. Source: `split_ssr_http_obfs_param` and
`ssr_http_obfs_request` in `shadowsocks/obfs.rs`. -/
namespace AtlasKernel.Shadowsocks
open AtlasKernel.Lib

/-! ## The parameter -/

/-- `.replace("\\n", "\r\n")` -/
def replaceEscapedNewline : List Char → List Char
  | '\\' :: 'n' :: cs => '\r' :: '\n' :: replaceEscapedNewline cs
  | c :: cs => c :: replaceEscapedNewline cs
  | [] => []

/-- `.replace('\n', "\r\n")` -/
def replaceNewline (text : List Char) : List Char :=
  text.flatMap fun c => if c = '\n' then ['\r', '\n'] else [c]

/-- The hosts and the headers of a parameter. -/
def hostsAndHeaders (param : List Char) : List Char × List Char :=
  (splitOnce '#' (trim param)).getD (trim param, [])

def splitSsrHttpObfsParam (param fallbackHost : List Char) : List Char × List Char :=
  let (host, headers) := hostsAndHeaders param
  let host := (((host.splitOn ',').map trim).find? fun value => value ≠ []).getD fallbackHost
  let headers := trim (replaceNewline (replaceEscapedNewline headers))
  (host, headers)

example : splitSsrHttpObfsParam " , a.com ,b.com#X: 1\nY: 2 ".toList "s.net".toList =
    ("a.com".toList, "X: 1\r\nY: 2".toList) := by decide

/-! ## The request -/

/-- `b"0123456789abcdef"` -/
def hexTable : Bytes :=
  [0x30, 0x31, 0x32, 0x33, 0x34, 0x35, 0x36, 0x37, 0x38, 0x39, 0x61, 0x62, 0x63, 0x64, 0x65, 0x66]

def hexByte (n : UInt8) : UInt8 := hexTable.getD n.toNat 0

/-- `%`, and the two digits of the byte -/
def percentByte (byte : UInt8) : Bytes := [0x25, hexByte (byte >>> 4), hexByte (byte &&& 0x0f)]

/-- What goes into the path; `draw` is `rand::random::<u8>()`. -/
def headDataLen (draw : UInt8) (payload : Bytes) : Nat :=
  let headLen := min payload.length 30
  let headDataLen :=
    if payload.length - headLen > 64 then headLen + draw.toNat % 65 else payload.length
  min headDataLen payload.length

def hostHeader (host : List Char) (port : UInt16) : List Char :=
  if port = 80 then host else host ++ ':' :: Nat.toDigits 10 port.toNat

/-- The header without custom lines, line by line. -/
def defaultLines : List (List Char) :=
  ["User-Agent: Mozilla/5.0".toList,
    "Accept: text/html,application/xhtml+xml,application/xml;q=0.9,*/*;q=0.8".toList,
    "Accept-Language: en-US,en;q=0.8".toList, "Accept-Encoding: gzip, deflate".toList,
    "DNT: 1".toList, "Connection: keep-alive".toList]

def defaultHeaders : List Char := defaultLines.flatMap (· ++ ['\r', '\n']) ++ ['\r', '\n']

def ssrHttpObfsRequest (draw : UInt8) (host : List Char) (port : UInt16) (post : Bool)
    (headers : List Char) (payload : Bytes) : Bytes :=
  let headData := payload.take (headDataLen draw payload)
  let rest := payload.drop (headDataLen draw payload)
  utf8 (if post then "POST /".toList else "GET /".toList) ++ headData.flatMap percentByte ++
    utf8 " HTTP/1.1\r\nHost: ".toList ++ utf8 (hostHeader host port) ++ utf8 "\r\n".toList ++
    (if headers = [] then utf8 defaultHeaders else utf8 headers ++ utf8 "\r\n\r\n".toList) ++ rest

/-! ## Header blocks -/

def crlf : Bytes := [13, 10]

/-- Each line with its end. -/
def blockLines (lines : List Bytes) : Bytes := lines.flatMap (· ++ crlf)

@[simp] theorem blockLines_cons (line : Bytes) (lines : List Bytes) :
    blockLines (line :: lines) = line ++ crlf ++ blockLines lines := List.flatMap_cons

/-- A line of text that does not end within itself. -/
def IsLine (line : Bytes) : Prop := line ≠ [] ∧ ¬ crlf <:+: line

theorem IsLine.tail {b c : UInt8} {line : Bytes} (h : IsLine (b :: c :: line)) : IsLine (c :: line) :=
  ⟨List.cons_ne_nil _ _,fun hwithin => h.2 (hwithin.trans (List.suffix_cons b _).isInfix)⟩

/-- A line end does not begin in a line. -/
theorem IsLine.no_crlf {b : UInt8} {line : Bytes} (h : IsLine (b :: line)) (rest : Bytes) :
    ¬ crlf <+: b :: (line ++ 13 :: rest) := by
  rintro ⟨more,heq⟩
  obtain ⟨rfl,htail⟩ := List.cons.inj heq
  cases line with
  | nil => cases htail
  | cons c line =>
    obtain ⟨rfl,_⟩ := List.cons.inj htail
    exact h.2 ⟨[],line,rfl⟩

theorem terminator_begins {bytes : Bytes} (h : bytes.take 4 = headerTerminator) :
    crlf <+: bytes ∧ crlf <+: bytes.drop 2 := by
  have hsplit : headerTerminator ++ bytes.drop 4 = bytes := by
    rw [← h, List.take_append_drop]
  rw [← hsplit]
  exact ⟨⟨13 :: 10 :: bytes.drop 4,rfl⟩,⟨bytes.drop 4,rfl⟩⟩

theorem findHeaderEnd_skip {b : UInt8} {bytes : Bytes}
    (h : ¬ (crlf <+: b :: bytes ∧ crlf <+: (b :: bytes).drop 2)) :
    findHeaderEnd (b :: bytes) = (findHeaderEnd bytes).map (· + 1) := by
  rw [findHeaderEnd, if_neg fun hend => h (terminator_begins hend)]

theorem IsLine.findHeaderEnd {line : Bytes} (h : IsLine line) (rest : Bytes) :
    findHeaderEnd (line ++ 13 :: rest) = (findHeaderEnd (13 :: rest)).map (· + line.length) := by
  induction line with
  | nil => exact absurd rfl h.1
  | cons b line ih =>
    rw [List.cons_append, findHeaderEnd_skip fun hend => h.no_crlf rest hend.1]
    cases line with
    | nil => rfl
    | cons c line =>
      rw [ih h.tail, Option.map_map]
      rfl

/-- A line that follows another one keeps the header open. -/
theorem IsLine.findHeaderEnd_next {line : Bytes} (h : IsLine line) (rest : Bytes) :
    Shadowsocks.findHeaderEnd (crlf ++ (line ++ 13 :: rest)) =
      (Shadowsocks.findHeaderEnd (line ++ 13 :: rest)).map (· + 2) := by
  cases line with
  | nil => exact absurd rfl h.1
  | cons b line =>
    have hfirst : ¬ crlf <+: 10 :: (b :: line ++ 13 :: rest) := by
      rintro ⟨more,heq⟩
      cases heq
    change Shadowsocks.findHeaderEnd (13 :: 10 :: (b :: line ++ 13 :: rest)) = _
    have hsecond : ¬ crlf <+: (13 :: 10 :: (b :: line ++ 13 :: rest)).drop 2 := h.no_crlf rest
    rw [findHeaderEnd_skip fun hend => hsecond hend.2, findHeaderEnd_skip fun hend => hfirst hend.1,
      Option.map_map]
    rfl

/-- The header ends behind the last of its lines. -/
theorem findHeaderEnd_blockLines {line : Bytes} {lines : List Bytes}
    (h : ∀ l ∈ line :: lines, IsLine l) (rest : Bytes) :
    findHeaderEnd (blockLines (line :: lines) ++ (crlf ++ rest)) =
      some ((blockLines (line :: lines)).length - 2) := by
  have hline := h line List.mem_cons_self
  induction lines generalizing line with
  | nil =>
    have hblock : blockLines [line] ++ (crlf ++ rest) = line ++ 13 :: 10 :: (crlf ++ rest) := by
      simp [blockLines, crlf]
    have hend : findHeaderEnd (13 :: 10 :: (crlf ++ rest)) = some 0 := rfl
    rw [hblock, hline.findHeaderEnd, hend]
    simp [blockLines, crlf]
  | cons next lines ih =>
    have hrest : ∀ l ∈ next :: lines, IsLine l := fun l hl => h l (List.mem_cons_of_mem _ hl)
    have hnext := hrest next List.mem_cons_self
    have hblock : blockLines (line :: next :: lines) ++ (crlf ++ rest) =
        line ++ 13 :: (10 :: (blockLines (next :: lines) ++ (crlf ++ rest))) := by
      simp [crlf]
    have hopen : blockLines (next :: lines) ++ (crlf ++ rest) =
        next ++ 13 :: (10 :: (blockLines lines ++ (crlf ++ rest))) := by
      simp [crlf]
    have hlater := hnext.findHeaderEnd_next (10 :: (blockLines lines ++ (crlf ++ rest)))
    rw [← hopen, ih hrest hnext] at hlater
    have hlater' : findHeaderEnd (13 :: 10 :: (blockLines (next :: lines) ++ (crlf ++ rest))) = _ :=
      hlater
    rw [hblock, hline.findHeaderEnd, hlater']
    simp only [blockLines_cons, Option.map_some, List.length_append, crlf, List.length_cons,
      List.length_nil, Option.some.injEq]
    omega

/-! ## Percent-encoding -/

/-- The value of a hexadecimal digit. -/
def hexByteValue (b : UInt8) : UInt8 := UInt8.ofNat (hexTable.idxOf b)

def decodePath : Bytes → Bytes
  | 0x25 :: high :: low :: rest => (hexByteValue high * 16 + hexByteValue low) :: decodePath rest
  | b :: rest => b :: decodePath rest
  | [] => []

theorem hexByte_table : ∀ n < 16, hexByteValue (hexByte (UInt8.ofNat n)) = UInt8.ofNat n ∧
    hexByte (UInt8.ofNat n) ≠ 0x20 ∧ hexByte (UInt8.ofNat n) ≠ 13 := by decide

theorem hexByte_spec {b : UInt8} (h : b.toNat < 16) :
    hexByteValue (hexByte b) = b ∧ hexByte b ≠ 0x20 ∧ hexByte b ≠ 13 := by
  have htable := hexByte_table b.toNat h
  rwa [UInt8.ofNat_toNat] at htable

theorem nibbles (b : UInt8) : (b >>> 4).toNat = b.toNat / 16 ∧ (b &&& 0x0f).toNat = b.toNat % 16 := by
  constructor
  · rw [UInt8.toNat_shiftRight]
    exact Nat.shiftRight_eq_div_pow b.toNat 4
  · rw [UInt8.toNat_and]
    exact Nat.and_two_pow_sub_one_eq_mod b.toNat 4

theorem percentByte_spec (b : UInt8) (rest : Bytes) :
    decodePath (percentByte b ++ rest) = b :: decodePath rest ∧ 0x20 ∉ percentByte b ∧
      13 ∉ percentByte b := by
  have hlt := b.toNat_lt
  obtain ⟨hhigh,hlow⟩ := nibbles b
  obtain ⟨hvalue,hspace,hend⟩ := @hexByte_spec (b >>> 4) (by omega)
  obtain ⟨hvalue',hspace',hend'⟩ := @hexByte_spec (b &&& 0x0f) (by omega)
  have hbyte : (b >>> 4) * 16 + (b &&& 0x0f) = b := by
    refine UInt8.toNat_inj.mp ?_
    rw [UInt8.toNat_add, UInt8.toNat_mul, hhigh, hlow]
    change (b.toNat / 16 * 16 % 256 + b.toNat % 16) % 256 = b.toNat
    omega
  refine ⟨?_,?_,?_⟩
  · rw [percentByte, List.cons_append, List.cons_append, List.cons_append, List.nil_append, decodePath,
      hvalue, hvalue', hbyte]
  · simp [percentByte, hspace.symm, hspace'.symm]
  · simp [percentByte, hend.symm, hend'.symm]

theorem decodePath_encoded (head : Bytes) :
    decodePath (head.flatMap percentByte) = head ∧ 0x20 ∉ head.flatMap percentByte ∧
      13 ∉ head.flatMap percentByte := by
  induction head with
  | nil => exact ⟨rfl,List.not_mem_nil,List.not_mem_nil⟩
  | cons b head ih =>
    obtain ⟨hdecode,hspace,hend⟩ := ih
    obtain ⟨hfirst,hspace',hend'⟩ := percentByte_spec b (head.flatMap percentByte)
    rw [List.flatMap_cons]
    refine ⟨?_,?_,?_⟩
    · rw [hfirst, hdecode]
    · simp [hspace, hspace']
    · simp [hend, hend']

/-! ## The lines of the user's text -/

/-- The header text, without the blanks around it. -/
def customText (param : List Char) : List Char := trim (hostsAndHeaders param).2

/-- The lines of a text, which end at a line feed or at the two characters `\n`. -/
def textLines : List Char → List (List Char)
  | '\\' :: 'n' :: cs => [] :: textLines cs
  | c :: cs =>
    if c = '\n' then [] :: textLines cs
    else
      match textLines cs with
      | line :: lines => (c :: line) :: lines
      | [] => [[c]]
  | [] => [[]]

/-- The custom lines of a parameter. -/
def customLines (param : List Char) : List (List Char) :=
  if customText param = [] then [] else textLines (customText param)

/-- Both replacements. -/
def replaced (text : List Char) : List Char := replaceNewline (replaceEscapedNewline text)

/-- The two characters of an escaped newline. -/
def escapedNewline : List Char := ['\\', 'n']

/-- A character that is no end of a line, and does not begin one. -/
def Plain (c : Char) (cs : List Char) : Prop := c ≠ '\n' ∧ ¬ escapedNewline <+: c :: cs

theorem text_induction {motive : List Char → Prop}
    (escaped : ∀ cs, motive cs → motive ('\\' :: 'n' :: cs))
    (newline : ∀ cs, motive cs → motive ('\n' :: cs))
    (plain : ∀ c cs, Plain c cs → motive cs → motive (c :: cs)) (nil : motive [])
    (text : List Char) : motive text := by
  induction text using replaceEscapedNewline.induct with
  | case1 cs ih => exact escaped cs ih
  | case2 c cs hno ih =>
    by_cases hc : c = '\n'
    · subst hc
      exact newline cs ih
    · refine plain c cs ⟨hc,?_⟩ ih
      rintro ⟨rest,heq⟩
      cases heq
      exact hno rest rfl rfl
  | case3 => exact nil

theorem Plain.not_pair {c : Char} {cs : List Char} (h : Plain c cs) :
    ∀ rest, c = '\\' → cs = 'n' :: rest → False := by
  rintro rest rfl rfl
  exact h.2 ⟨rest,rfl⟩

theorem Plain.replaced {c : Char} {cs : List Char} (h : Plain c cs) :
    replaced (c :: cs) = c :: replaced cs := by
  have hescaped : replaceEscapedNewline (c :: cs) = c :: replaceEscapedNewline cs := by
    rw [replaceEscapedNewline]
    exact h.not_pair
  rw [Shadowsocks.replaced, hescaped, replaceNewline, List.flatMap_cons, if_neg h.1]
  rfl

theorem replaced_newline (cs : List Char) :
    replaced ('\n' :: cs) = '\r' :: '\n' :: replaced cs := by
  have hescaped : replaceEscapedNewline ('\n' :: cs) = '\n' :: replaceEscapedNewline cs := by
    rw [replaceEscapedNewline]
    intro rest hc
    cases hc
  rw [replaced, hescaped, replaceNewline, List.flatMap_cons, if_pos rfl]
  rfl

/-- The second replacement acts on what the first has written. -/
theorem replaced_escaped (cs : List Char) :
    replaced ('\\' :: 'n' :: cs) = '\r' :: '\r' :: '\n' :: replaced cs := rfl

theorem textLines_newline (cs : List Char) : textLines ('\n' :: cs) = [] :: textLines cs := by
  rw [textLines]
  · rfl
  · intro rest hc
    cases hc

theorem textLines_ne_nil (text : List Char) : textLines text ≠ [] := by
  induction text using text_induction with
  | escaped cs ih => exact List.cons_ne_nil _ _
  | newline cs ih =>
    rw [textLines_newline]
    exact List.cons_ne_nil _ _
  | plain c cs h ih =>
    rw [textLines, if_neg h.1]
    · split <;> exact List.cons_ne_nil _ _
    · exact h.not_pair
  | nil => exact List.cons_ne_nil _ _

theorem Plain.textLines {c : Char} {cs : List Char} (h : Plain c cs) :
    ∃ line lines, textLines cs = line :: lines ∧ textLines (c :: cs) = (c :: line) :: lines := by
  obtain ⟨line,lines,hlines⟩ := List.exists_cons_of_ne_nil (textLines_ne_nil cs)
  refine ⟨line,lines,hlines,?_⟩
  rw [Shadowsocks.textLines, if_neg h.1, hlines]
  exact h.not_pair

theorem not_mem_textLines (text : List Char) : ∀ line ∈ textLines text, '\n' ∉ line := by
  induction text using text_induction with
  | escaped cs ih =>
    intro line hline
    cases List.mem_cons.mp hline with
    | inl heq => exact heq ▸ List.not_mem_nil
    | inr hmem => exact ih line hmem
  | newline cs ih =>
    intro line hline
    rw [textLines_newline] at hline
    cases List.mem_cons.mp hline with
    | inl heq => exact heq ▸ List.not_mem_nil
    | inr hmem => exact ih line hmem
  | plain c cs h ih =>
    obtain ⟨first,lines,hcs,hlines⟩ := h.textLines
    rw [hcs] at ih
    rw [hlines]
    intro line hline
    cases List.mem_cons.mp hline with
    | inl heq =>
      rw [heq]
      exact List.not_mem_cons_of_ne_of_not_mem h.1.symm (ih first List.mem_cons_self)
    | inr hmem => exact ih line (List.mem_cons_of_mem _ hmem)
  | nil =>
    intro line hline
    rw [List.mem_singleton.mp hline]
    exact List.not_mem_nil

/-- Without an escaped newline the replaced text is the lines, each with its end. -/
theorem blockLines_textLines {text : List Char} (h : ¬ escapedNewline <:+: text) :
    utf8 (replaced text) ++ crlf = blockLines ((textLines text).map utf8) := by
  induction text using text_induction with
  | escaped cs ih => exact absurd ⟨[],cs,rfl⟩ h
  | newline cs ih =>
    have hcs := ih fun hwithin => h (hwithin.trans (List.suffix_cons _ cs).isInfix)
    rw [replaced_newline, textLines_newline, List.map_cons, blockLines_cons, ← hcs]
    rfl
  | plain c cs hplain ih =>
    have hcs := ih fun hwithin => h (hwithin.trans (List.suffix_cons _ cs).isInfix)
    obtain ⟨line,lines,hlines,hcons⟩ := hplain.textLines
    rw [hlines, List.map_cons, blockLines_cons] at hcs
    rw [hplain.replaced, hcons, List.map_cons, blockLines_cons]
    change (String.utf8EncodeChar c ++ utf8 (replaced cs)) ++ crlf =
      (String.utf8EncodeChar c ++ utf8 line) ++ crlf ++ blockLines (lines.map utf8)
    rw [List.append_assoc, hcs]
    simp only [List.append_assoc]
  | nil => rfl

/-- With one, there is a second carriage return where a line should be over. -/
theorem blockLines_escaped {text : List Char} (h : escapedNewline <:+: text) (rest rest' : Bytes) :
    utf8 (replaced text) ++ rest ≠ blockLines ((textLines text).map utf8) ++ rest' := by
  induction text using text_induction generalizing rest rest' with
  | escaped cs ih =>
    intro heq
    have hsecond := congrArg (fun bytes => bytes[1]?) heq
    cases hsecond
  | newline cs ih =>
    have hcs : escapedNewline <:+: cs := by
      obtain hhead | hwithin := List.infix_cons_iff.mp h
      · obtain ⟨_,heq⟩ := hhead
        cases heq
      · exact hwithin
    intro heq
    rw [replaced_newline, textLines_newline] at heq
    exact ih hcs rest rest' (List.cons.inj (List.cons.inj heq).2).2
  | plain c cs hplain ih =>
    have hcs : escapedNewline <:+: cs := (List.infix_cons_iff.mp h).resolve_left hplain.2
    obtain ⟨line,lines,hlines,hcons⟩ := hplain.textLines
    intro heq
    rw [hplain.replaced, hcons, List.map_cons, blockLines_cons] at heq
    have hstrip : utf8 (replaced cs) ++ rest =
        utf8 line ++ crlf ++ blockLines (lines.map utf8) ++ rest' := by
      refine @List.append_cancel_left _ (String.utf8EncodeChar c) _ _ ?_
      simpa only [utf8, List.flatMap_cons, List.append_assoc] using heq
    refine ih hcs rest rest' ?_
    rw [hlines, List.map_cons, blockLines_cons]
    exact hstrip
  | nil => exact absurd (List.eq_nil_of_infix_nil h) (List.cons_ne_nil _ _)

/-! ## Blanks around the text -/

/-- Blanks stay blanks. -/
theorem replaced_blanks {blanks : List Char} (h : ∀ c ∈ blanks, isWhitespace c = true) :
    ∀ c ∈ replaced blanks, isWhitespace c = true := by
  induction blanks using text_induction with
  | escaped cs ih => cases h '\\' List.mem_cons_self
  | newline cs ih =>
    have hcs := ih fun c hc => h c (List.mem_cons_of_mem _ hc)
    rw [replaced_newline]
    intro c hc
    simp only [List.mem_cons] at hc
    obtain rfl | rfl | hmem := hc
    · rfl
    · rfl
    · exact hcs c hmem
  | plain d cs hplain ih =>
    have hcs := ih fun c hc => h c (List.mem_cons_of_mem _ hc)
    rw [hplain.replaced]
    intro c hc
    cases List.mem_cons.mp hc with
    | inl heq => exact heq ▸ h d List.mem_cons_self
    | inr hmem => exact hcs c hmem
  | nil => exact fun c hc => absurd hc List.not_mem_nil

/-- A cut that is not within an escaped newline. -/
def CleanCut (text more : List Char) : Prop := more.head? ≠ some 'n' ∨ text.getLast? ≠ some '\\'

theorem CleanCut.tail {c : Char} {cs more : List Char} (h : CleanCut (c :: cs) more) : CleanCut cs more := by
  cases cs with
  | nil => exact .inr fun heq => by cases heq
  | cons d ds =>
    rw [CleanCut, List.getLast?_cons_cons] at h
    exact h

theorem Plain.append {c : Char} {cs more : List Char} (hplain : Plain c cs) (h : CleanCut (c :: cs) more) :
    Plain c (cs ++ more) := by
  refine ⟨hplain.1,?_⟩
  rintro ⟨rest,heq⟩
  cases cs with
  | nil =>
    obtain ⟨rfl,rfl⟩ := List.cons.inj heq
    obtain hhead | hlast := h
    · exact hhead rfl
    · exact hlast rfl
  | cons d ds =>
    obtain ⟨rfl,htail⟩ := List.cons.inj heq
    obtain ⟨rfl,_⟩ := List.cons.inj htail
    exact hplain.2 ⟨ds,rfl⟩

theorem replaced_append {text more : List Char} (h : CleanCut text more) :
    replaced (text ++ more) = replaced text ++ replaced more := by
  induction text using text_induction with
  | escaped cs ih =>
    rw [List.cons_append, List.cons_append, replaced_escaped, replaced_escaped, ih h.tail.tail]
    rfl
  | newline cs ih =>
    rw [List.cons_append, replaced_newline, replaced_newline, ih h.tail]
    rfl
  | plain c cs hplain ih =>
    rw [List.cons_append, (hplain.append h).replaced, hplain.replaced, ih h.tail]
    rfl
  | nil => rfl

/-- The ends of a text are those of its first and last line. -/
theorem replaced_head {text : List Char} (h : ∀ line ∈ textLines text, line ≠ []) :
    (replaced text).head? = text.head? := by
  induction text using text_induction with
  | escaped cs ih => exact absurd rfl (h [] List.mem_cons_self)
  | newline cs ih => exact absurd rfl (h [] (by rw [textLines_newline]; exact List.mem_cons_self))
  | plain c cs hplain ih => rw [hplain.replaced]; rfl
  | nil => rfl

theorem textLines_single_nil {text : List Char} (h : textLines text = [[]]) : text = [] := by
  induction text using text_induction with
  | escaped cs ih => exact absurd (List.cons.inj h).2 (textLines_ne_nil cs)
  | newline cs ih =>
    rw [textLines_newline] at h
    exact absurd (List.cons.inj h).2 (textLines_ne_nil cs)
  | plain c cs hplain ih =>
    obtain ⟨line,lines,_,hcons⟩ := hplain.textLines
    rw [hcons] at h
    cases h
  | nil => rfl

theorem getLast_of_rest (front front' : List Char) {text text' : List Char} (hne : text ≠ [])
    (h : text'.getLast? = text.getLast?) : (front' ++ text').getLast? = (front ++ text).getLast? := by
  obtain ⟨c,hc⟩ := Option.ne_none_iff_exists'.mp fun hnone => hne (List.getLast?_eq_none_iff.mp hnone)
  rw [List.getLast?_append, List.getLast?_append, h, hc]
  rfl

theorem replaced_getLast {text : List Char} (h : (textLines text).getLast? ≠ some []) :
    (replaced text).getLast? = text.getLast? := by
  -- behind an end of a line there is another line
  have hnext : ∀ {cs : List Char}, ([] :: textLines cs).getLast? ≠ some [] →
      cs ≠ [] ∧ (textLines cs).getLast? ≠ some [] := by
    intro cs hlast
    obtain ⟨line,lines,hlines⟩ := List.exists_cons_of_ne_nil (textLines_ne_nil cs)
    rw [hlines, List.getLast?_cons_cons, ← hlines] at hlast
    refine ⟨?_,hlast⟩
    rintro rfl
    exact hlast rfl
  induction text using text_induction with
  | escaped cs ih =>
    obtain ⟨hne,hcs⟩ := hnext h
    exact getLast_of_rest ['\\', 'n'] ['\r', '\r', '\n'] hne (ih hcs)
  | newline cs ih =>
    rw [textLines_newline] at h
    obtain ⟨hne,hcs⟩ := hnext h
    rw [replaced_newline]
    exact getLast_of_rest ['\n'] ['\r', '\n'] hne (ih hcs)
  | plain c cs hplain ih =>
    rw [hplain.replaced]
    by_cases hne : cs = []
    · subst hne
      rfl
    · obtain ⟨line,lines,hlines,hcons⟩ := hplain.textLines
      refine getLast_of_rest [c] [c] hne (ih ?_)
      intro hlast
      rw [hlines] at hlast
      cases lines with
      | nil =>
        obtain rfl : line = [] := by simpa using hlast
        exact hne (textLines_single_nil hlines)
      | cons next lines =>
        rw [hcons, List.getLast?_cons_cons] at h
        rw [List.getLast?_cons_cons] at hlast
        exact h hlast
  | nil => rfl

theorem replaced_trimmed {text : List Char} (htext : Trimmed text)
    (h : text = [] ∨ ∀ line ∈ textLines text, line ≠ []) : Trimmed (replaced text) := by
  obtain rfl | hlines := h
  · exact htext
  · constructor
    · rw [replaced_head hlines]
      exact htext.1
    · rw [replaced_getLast fun hlast => hlines [] (List.mem_of_getLast? hlast) rfl]
      exact htext.2

/-- The blanks around the text make no difference. -/
theorem trim_replaced {headers : List Char}
    (h : trim headers = [] ∨ ∀ line ∈ textLines (trim headers), line ≠ []) :
    trim (replaced headers) = replaced (trim headers) := by
  obtain ⟨before,after,hparts,hbefore,hafter,htrimmed⟩ := trim_parts headers
  have hfront : CleanCut before (trim headers ++ after) := by
    refine .inr fun hlast => ?_
    cases hbefore _ (List.mem_of_getLast? hlast)
  have hback : CleanCut (trim headers) after := by
    refine .inl fun hhead => ?_
    cases hafter _ (List.mem_of_mem_head? hhead)
  conv_lhs => rw [hparts]
  rw [replaced_append hfront, replaced_append hback]
  exact trim_between (replaced_trimmed htrimmed h) (replaced_blanks hbefore) (replaced_blanks hafter)

/-! ## Well-formed requests -/

def requestLine (post : Bool) (path : Bytes) : Bytes :=
  utf8 (if post then "POST /".toList else "GET /".toList) ++ path ++ utf8 " HTTP/1.1".toList

def hostLine (host : List Char) (port : UInt16) : Bytes :=
  utf8 ("Host: ".toList ++ hostHeader host port)

/-- The lines of a request: the custom ones, or the default ones if there are none. -/
def requestLines (post : Bool) (path : Bytes) (host : List Char) (port : UInt16)
    (custom : List (List Char)) : List Bytes :=
  requestLine post path :: hostLine host port ::
    (if custom = [] then defaultLines else custom).map utf8

/-- The header is these lines, each of which ends where it should, and what the path says and
what comes behind the header is the payload. -/
def CarriesPayload (post : Bool) (host : List Char) (port : UInt16) (custom : List (List Char))
    (payload out : Bytes) : Prop :=
  ∃ path rest, out = blockLines (requestLines post path host port custom) ++ (crlf ++ rest) ∧
    (∀ line ∈ requestLines post path host port custom, IsLine line) ∧
    findHeaderEnd out = some ((blockLines (requestLines post path host port custom)).length - 2) ∧
    0x20 ∉ path ∧ decodePath path ++ rest = payload

/-- What the parameter asks for, in a request that carries the payload. -/
def ParamRequest (draw : UInt8) (port : UInt16) (post : Bool) (param fallbackHost : List Char)
    (payload : Bytes) : Prop :=
  let (host, headers) := splitSsrHttpObfsParam param fallbackHost
  CarriesPayload post host port (customLines param) payload
    (ssrHttpObfsRequest draw host port post headers payload)

theorem defaultLines_are : ∀ line ∈ defaultLines, line ≠ [] ∧ '\n' ∉ line := by
  simp [defaultLines]

/-- A text without a line end is a line. -/
theorem isLine_utf8 {text : List Char} (hne : text ≠ []) (h : ¬ ['\r', '\n'] <:+: text) :
    IsLine (utf8 text) := by
  constructor
  · intro hnil
    exact hne (utf8_injective (hnil.trans rfl))
  · rintro ⟨before,after,heq⟩
    have hcut : utf8 text = before ++ 13 :: 10 :: after := by
      rw [← heq]
      simp [crlf]
    obtain ⟨front,back,rfl,_⟩ := utf8_split_crlf hcut
    exact h ⟨front,back,by simp⟩

theorem crlf_utf8 {text : List Char} (h : ['\r', '\n'] <:+: text) : crlf <:+: utf8 text := by
  obtain ⟨before,after,rfl⟩ := h
  refine ⟨utf8 before,utf8 after,?_⟩
  rw [utf8_append, utf8_append]
  rfl

theorem no_crlf_of_notMem {line : List Char} (h : '\n' ∉ line) : ¬ ['\r', '\n'] <:+: line :=
  fun hwithin => h (hwithin.subset (by simp))

/-- A pair within two parts is within one of them, unless it lies across the cut. -/
theorem pair_infix_append {α : Type*} {a b : α} {as bs : List α} (h : [a, b] <:+: as ++ bs)
    (hcut : as.getLast? ≠ some a ∨ bs.head? ≠ some b) : [a, b] <:+: as ∨ [a, b] <:+: bs := by
  rw [List.infix_append_iff_ne_nil] at h
  obtain has | hbs | ⟨front,back,hfront,hback,heq,hends,hbegins⟩ := h
  · exact .inl has
  · exact .inr hbs
  · exfalso
    obtain ⟨c,front,rfl⟩ := List.exists_cons_of_ne_nil hfront
    obtain ⟨d,back,rfl⟩ := List.exists_cons_of_ne_nil hback
    have hsingle : front = [] ∧ back = [] := by
      have hlength := congrArg List.length heq
      simp only [List.length_append, List.length_cons, List.length_nil] at hlength
      exact ⟨List.eq_nil_of_length_eq_zero (by omega),List.eq_nil_of_length_eq_zero (by omega)⟩
    obtain ⟨rfl,rfl⟩ := hsingle
    obtain ⟨rfl,htail⟩ := List.cons.inj heq
    obtain ⟨rfl,_⟩ := List.cons.inj htail
    obtain ⟨before,rfl⟩ := hends
    obtain ⟨after,rfl⟩ := hbegins
    obtain hlast | hhead := hcut
    · simp at hlast
    · simp at hhead

theorem hostHeader_no_crlf {host : List Char} (h : ¬ ['\r', '\n'] <:+: host) (port : UInt16) :
    ¬ ['\r', '\n'] <:+: hostHeader host port := by
  rw [hostHeader]
  split
  · exact h
  · intro hwithin
    have hcolon : (':' :: Nat.toDigits 10 port.toNat).head? ≠ some '\n' := by
      intro heq
      cases heq
    have hport : '\n' ∉ ':' :: Nat.toDigits 10 port.toNat :=
      List.not_mem_cons_of_ne_of_not_mem (by decide) (notMem_digits (by decide) _)
    obtain hhost | hinport := pair_infix_append hwithin (.inr hcolon)
    · exact h hhost
    · exact no_crlf_of_notMem hport hinport

theorem isLine_hostLine_iff (host : List Char) (port : UInt16) :
    IsLine (hostLine host port) ↔ ¬ ['\r', '\n'] <:+: host := by
  constructor
  · intro hline hhost
    refine hline.2 (crlf_utf8 (hhost.trans ?_))
    rw [hostHeader]
    split
    · exact (List.suffix_append _ host).isInfix
    · exact ⟨"Host: ".toList,':' :: Nat.toDigits 10 port.toNat,List.append_assoc _ _ _⟩
  · intro hhost
    refine isLine_utf8 (List.cons_ne_nil _ _) fun hwithin => ?_
    have hblank : "Host: ".toList.getLast? ≠ some '\r' := by decide
    obtain hname | hheader := pair_infix_append hwithin (.inl hblank)
    · exact no_crlf_of_notMem (by decide) hname
    · exact hostHeader_no_crlf hhost port hheader

theorem isLine_requestLine (post : Bool) {path : Bytes} (h : 13 ∉ path) : IsLine (requestLine post path) := by
  constructor
  · rw [requestLine]
    cases post <;> exact List.cons_ne_nil _ _
  · intro hwithin
    have hmem : (13 : UInt8) ∈ requestLine post path := hwithin.subset List.mem_cons_self
    rw [requestLine, List.mem_append, List.mem_append] at hmem
    obtain (hmethod | hpath) | hversion := hmem
    · revert hmethod
      cases post <;> decide
    · exact h hpath
    · revert hversion
      decide

/-- The request line gives the path, and what comes behind the line. -/
theorem requestLine_inj {post : Bool} {path path' : Bytes} {rest rest' : Bytes} (h : 0x20 ∉ path)
    (h' : 0x20 ∉ path')
    (heq : requestLine post path ++ rest = requestLine post path' ++ rest') : rest = rest' := by
  have hpath : path ++ 0x20 :: (utf8 "HTTP/1.1".toList ++ rest) =
      path' ++ 0x20 :: (utf8 "HTTP/1.1".toList ++ rest') := by
    simp only [requestLine, List.append_assoc] at heq
    exact List.append_cancel_left heq
  obtain ⟨_,hrest⟩ := until_eq h h' hpath
  exact List.append_cancel_left hrest

/-! ## The header of a request -/

theorem utf8_lines (lines : List (List Char)) :
    utf8 (lines.flatMap (· ++ ['\r', '\n'])) = blockLines (lines.map utf8) := by
  induction lines with
  | nil => rfl
  | cons line lines ih =>
    rw [List.flatMap_cons, utf8_append, utf8_append, List.map_cons, blockLines_cons, ih]
    rfl

theorem replaced_ne_nil {text : List Char} (h : text ≠ []) : replaced text ≠ [] := by
  induction text using text_induction with
  | escaped cs ih => exact List.cons_ne_nil _ _
  | newline cs ih =>
    rw [replaced_newline]
    exact List.cons_ne_nil _ _
  | plain c cs hplain ih =>
    rw [hplain.replaced]
    exact List.cons_ne_nil _ _
  | nil => exact absurd rfl h

/-- The request is its request line and its host line, then the headers and the rest. -/
theorem ssrHttpObfsRequest_eq (draw : UInt8) (host : List Char) (port : UInt16) (post : Bool)
    (headers : List Char) (payload : Bytes) :
    ssrHttpObfsRequest draw host port post headers payload =
      requestLine post ((payload.take (headDataLen draw payload)).flatMap percentByte) ++
        (crlf ++ (hostLine host port ++ (crlf ++
          ((if headers = [] then utf8 defaultHeaders else utf8 headers ++ (crlf ++ crlf)) ++
            payload.drop (headDataLen draw payload))))) := by
  have hhost : utf8 " HTTP/1.1\r\nHost: ".toList =
      utf8 " HTTP/1.1".toList ++ (crlf ++ utf8 "Host: ".toList) := rfl
  have hend : utf8 "\r\n".toList = crlf := rfl
  have hheader : utf8 "\r\n\r\n".toList = crlf ++ crlf := rfl
  simp only [ssrHttpObfsRequest, requestLine, hostLine, utf8_append, hhost, hend, hheader,
    List.append_assoc]

/-- The headers of a parameter whose custom lines are not empty. -/
theorem splitSsrHttpObfsParam_headers {param : List Char} (h : ∀ line ∈ customLines param, line ≠ [])
    (fallbackHost : List Char) :
    (splitSsrHttpObfsParam param fallbackHost).2 = replaced (customText param) := by
  refine @trim_replaced (hostsAndHeaders param).2 ?_
  by_cases hempty : customText param = []
  · exact .inl hempty
  · rw [customLines, if_neg hempty] at h
    exact .inr h

/-- The headers as lines. -/
theorem header_lines {text : List Char} (h : ¬ escapedNewline <:+: text) (rest : Bytes) :
    (if replaced text = [] then utf8 defaultHeaders else utf8 (replaced text) ++ (crlf ++ crlf)) ++ rest =
      blockLines ((if (if text = [] then [] else textLines text) = [] then defaultLines
        else if text = [] then [] else textLines text).map utf8) ++ (crlf ++ rest) := by
  by_cases htext : text = []
  · subst htext
    change utf8 defaultHeaders ++ rest = blockLines (defaultLines.map utf8) ++ (crlf ++ rest)
    rw [defaultHeaders, utf8_append, utf8_lines, List.append_assoc]
    rfl
  · rw [if_neg (replaced_ne_nil htext), if_neg htext, if_neg (textLines_ne_nil text),
      ← blockLines_textLines h]
    simp only [List.append_assoc]

theorem request_lines_append (post : Bool) (path : Bytes) (host : List Char) (port : UInt16)
    (custom : List (List Char)) (rest : Bytes) :
    blockLines (requestLines post path host port custom) ++ rest =
      requestLine post path ++ (crlf ++ (hostLine host port ++ (crlf ++
        (blockLines ((if custom = [] then defaultLines else custom).map utf8) ++ rest)))) := by
  simp only [requestLines, blockLines_cons, List.append_assoc]

theorem customLines_no_newline (param : List Char) : ∀ line ∈ customLines param, '\n' ∉ line := by
  rw [customLines]
  split
  · exact fun line hline => absurd hline List.not_mem_nil
  · exact not_mem_textLines (customText param)

theorem requestLines_are (post : Bool) {path : Bytes} {host : List Char} (port : UInt16)
    {custom : List (List Char)} (hpath : 13 ∉ path) (hhost : ¬ ['\r', '\n'] <:+: host)
    (hcustom : ∀ line ∈ custom, line ≠ [] ∧ '\n' ∉ line) :
    ∀ line ∈ requestLines post path host port custom, IsLine line := by
  have htext : ∀ line ∈ if custom = [] then defaultLines else custom, line ≠ [] ∧ '\n' ∉ line := by
    split
    · exact defaultLines_are
    · exact hcustom
  intro line hline
  rw [requestLines, List.mem_cons, List.mem_cons, List.mem_map] at hline
  obtain rfl | rfl | ⟨text,hmem,rfl⟩ := hline
  · exact isLine_requestLine post hpath
  · exact (isLine_hostLine_iff host port).mpr hhost
  · obtain ⟨hne,hnewline⟩ := htext text hmem
    exact isLine_utf8 hne (no_crlf_of_notMem hnewline)

/-- A well-formed request has a header text without an escaped newline. -/
theorem ParamRequest.unescaped {draw : UInt8} {port : UInt16} {post : Bool}
    {param fallbackHost : List Char} {payload : Bytes}
    (h : ParamRequest draw port post param fallbackHost payload)
    (hcustom : ∀ line ∈ customLines param, line ≠ []) : ¬ escapedNewline <:+: customText param := by
  intro hescaped
  have hheaders := splitSsrHttpObfsParam_headers hcustom fallbackHost
  rw [ParamRequest] at h
  generalize splitSsrHttpObfsParam param fallbackHost = pair at h hheaders
  obtain ⟨host,headers⟩ := pair
  obtain rfl : headers = replaced (customText param) := hheaders
  obtain ⟨path,rest,hout,_,_,hpath,_⟩ := h
  have htext : customText param ≠ [] := by
    intro hnil
    rw [hnil] at hescaped
    cases List.eq_nil_of_infix_nil hescaped
  have hspace := (decodePath_encoded (payload.take (headDataLen draw payload))).2.1
  rw [ssrHttpObfsRequest_eq, request_lines_append] at hout
  have hrest := requestLine_inj hspace hpath hout
  have htail := List.append_cancel_left (List.append_cancel_left (List.append_cancel_left hrest))
  rw [if_neg (replaced_ne_nil htext), customLines, if_neg htext, if_neg (textLines_ne_nil _),
    List.append_assoc] at htail
  exact blockLines_escaped hescaped _ _ htail

/-- And a host without a line end. -/
theorem ParamRequest.host_line {draw : UInt8} {port : UInt16} {post : Bool}
    {param fallbackHost : List Char} {payload : Bytes}
    (h : ParamRequest draw port post param fallbackHost payload) :
    ¬ ['\r', '\n'] <:+: (splitSsrHttpObfsParam param fallbackHost).1 := by
  obtain ⟨path,rest,_,hlines,_⟩ := h
  refine (isLine_hostLine_iff _ port).mp (hlines _ ?_)
  rw [requestLines]
  exact List.mem_cons_of_mem _ List.mem_cons_self

/-- A parameter is turned into a well-formed request that carries the payload exactly when no
line of its headers ends at an escaped newline, and its host holds no line end. -/
theorem paramRequest_iff (draw : UInt8) (port : UInt16) (post : Bool) (param fallbackHost : List Char)
    (payload : Bytes) (hcustom : ∀ line ∈ customLines param, line ≠ []) :
    ParamRequest draw port post param fallbackHost payload ↔
      ¬ escapedNewline <:+: customText param ∧
        ¬ ['\r', '\n'] <:+: (splitSsrHttpObfsParam param fallbackHost).1 := by
  constructor
  · intro h
    exact ⟨h.unescaped hcustom,h.host_line⟩
  · rintro ⟨hescaped,hhost⟩
    have hheaders := splitSsrHttpObfsParam_headers hcustom fallbackHost
    rw [ParamRequest]
    generalize splitSsrHttpObfsParam param fallbackHost = pair at hhost hheaders ⊢
    obtain ⟨host,headers⟩ := pair
    obtain rfl : headers = replaced (customText param) := hheaders
    obtain ⟨hdecode,hspace,hreturn⟩ := decodePath_encoded (payload.take (headDataLen draw payload))
    have hlines := requestLines_are post port hreturn hhost fun line hline =>
      ⟨hcustom line hline,customLines_no_newline param line hline⟩
    have hrequest := ssrHttpObfsRequest_eq draw host port post (replaced (customText param)) payload
    rw [header_lines hescaped, ← customLines, ← request_lines_append] at hrequest
    refine ⟨_,_,hrequest,hlines,?_,hspace,?_⟩
    · rw [hrequest]
      exact findHeaderEnd_blockLines hlines _
    · rw [hdecode, List.take_append_drop]

theorem paramRequest_iff_plain :
    (∀ line ∈ customLines "a.io,b.io#X: 1\nY: 2".toList, line ≠ []) ∧
      ParamRequest 7 80 false "a.io,b.io#X: 1\nY: 2".toList [] [1, 2] := by
  have hcustom : ∀ line ∈ customLines "a.io,b.io#X: 1\nY: 2".toList, line ≠ [] := by decide
  exact ⟨hcustom,(paramRequest_iff 7 80 false _ [] [1, 2] hcustom).mpr ⟨by decide,by decide⟩⟩

/-- The first line is followed by two carriage returns. -/
theorem paramRequest_escaped :
    (∀ line ∈ customLines "a.io#X: 1\\nY: 2".toList, line ≠ []) ∧
      ¬ ParamRequest 7 80 false "a.io#X: 1\\nY: 2".toList [] [1, 2] := by
  have hcustom : ∀ line ∈ customLines "a.io#X: 1\\nY: 2".toList, line ≠ [] := by decide
  exact ⟨hcustom,fun h => h.unescaped hcustom (by decide)⟩

end AtlasKernel.Shadowsocks
