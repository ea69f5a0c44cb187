import AtlasKernel.Vless.NodeConfig

/-! The short id of REALITY: `decode_hex`, what `RealitySessionId::new` and
`VlessAdapter::validate` make of it, and the texts on which it goes wrong. Decoding the public
key is any function. Source: `adapter/reality.rs`, `adapter/vless.rs`. -/
namespace AtlasKernel.Vless
open AtlasKernel.Lib

/-! ## Decoding -/

/-- The loop of `decode_hex`; `none` is the panic of a slice. -/
def decodeHexLoop? (value : List Char) (index : Nat) (output : Bytes) : Option (Except String Bytes) :=
  if index < (utf8 value).length then
    match strSlice? value index (index + 2) with
    | none => none
    | some digits =>
      match parseHexByte digits with
      | .error err => some (.error err.text)
      | .ok byte => decodeHexLoop? value (index + 2) (output ++ [UInt8.ofNat byte])
  else some (.ok output)
termination_by (utf8 value).length - index

def decodeHex? (value : String) : Option (Except String Bytes) :=
  let value := trim value.toList
  if value = [] then some (.ok [])
  else if (utf8 value).length % 2 ≠ 0 then some (.error "REALITY short id hex has an odd length")
  else decodeHexLoop? value 0 []

structure RealitySessionId where
  publicKey : Vector UInt8 32
  shortId : Bytes
  short : shortId.length ≤ 8
deriving DecidableEq, Repr

/-- `URL_SAFE_NO_PAD.decode`, with the text of its error. -/
abbrev DecodeKey := String → Except String Bytes

def RealitySessionId.new? (decode : DecodeKey) (publicKey shortId : String) :
    Option (Except String RealitySessionId) :=
  match decode publicKey with
  | .error err => some (.error ("REALITY public key is invalid: " ++ err))
  | .ok key =>
    if hkey : key.length = 32 then
      match decodeHex? shortId with
      | none => none
      | some (.error err) => some (.error err)
      | some (.ok shortId) =>
        if hshort : shortId.length ≤ 8 then some (.ok ⟨⟨key.toArray, hkey⟩, shortId, hshort⟩)
        else some (.error "REALITY short id must be at most 8 bytes")
    else some (.error "REALITY public key must be 32 bytes")

/-- `VlessAdapter::validate` -/
def validate? (decode : DecodeKey) (node : KernelNode) : Option (Except String Unit) :=
  match VlessConfig.fromNode? node with
  | none => none
  | some (.error err) => some (.error err)
  | some (.ok config) =>
    match config.security with
    | .reality publicKey shortId _ =>
      (RealitySessionId.new? decode publicKey shortId).map fun r => r.map fun _ => ()
    | _ => some (.ok ())

/-! ## Texts -/

/-- Pairs of a hex digit, or a plus sign, and a hex digit. -/
inductive HexPairs : List Char → Prop where
  | nil : HexPairs []
  | cons {hi lo : Char} {text : List Char} : isAsciiHexdigit hi = true ∨ hi = '+' →
      isAsciiHexdigit lo = true → HexPairs text → HexPairs (hi :: lo :: text)

/-- The bytes that pairs stand for. -/
def spelled : List Char → Bytes
  | hi :: lo :: text =>
    UInt8.ofNat ((hexDigitValue hi).getD 0 * 16 + (hexDigitValue lo).getD 0) :: spelled text
  | _ => []

/-- An even number of hex digits. -/
def EvenHex (text : List Char) : Prop :=
  text.length % 2 = 0 ∧ ∀ c ∈ text, isAsciiHexdigit c = true

/-- Two bytes from the front on, a character is not at its end. -/
def Straddles (text : List Char) : Prop :=
  ∃ c rest, text = c :: rest ∧
    (3 ≤ c.utf8Size ∨ c.utf8Size = 1 ∧ ∃ d more, rest = d :: more ∧ 2 ≤ d.utf8Size)

/-- Behind some pairs a slice ends within a character. -/
def StopsInside (text : List Char) : Prop :=
  ∃ pairs rest, text = pairs ++ rest ∧ HexPairs pairs ∧ Straddles rest

/-- There is a plus sign in place of a digit. -/
def Signed (text : List Char) : Prop := HexPairs text ∧ '+' ∈ text

theorem pairFront_size {hi : Char} (h : isAsciiHexdigit hi = true ∨ hi = '+') : hi.utf8Size = 1 := by
  rcases h with hhex | rfl
  · exact isAsciiHexdigit_size hhex
  · decide

theorem HexPairs.utf8_length {text : List Char} (h : HexPairs text) :
    (utf8 text).length = 2 * (spelled text).length := by
  induction h with
  | nil => rfl
  | @cons hi lo text hhi hlo _ ih =>
    have hone := pairFront_size hhi
    rw [utf8_length_cons, utf8_length_cons, hone, isAsciiHexdigit_size hlo, ih, spelled,
      List.length_cons]
    omega

/-- Without a plus sign, pairs are an even number of digits. -/
theorem evenHex_iff (text : List Char) : EvenHex text ↔ HexPairs text ∧ '+' ∉ text := by
  constructor
  · rintro ⟨heven,hall⟩
    refine ⟨?_,fun hplus => by simpa [not_hexdigit_plus] using hall '+' hplus⟩
    induction text using spelled.induct with
    | case1 hi lo text ih =>
      simp only [List.length_cons] at heven
      apply HexPairs.cons (.inl (hall hi (by simp))) (hall lo (by simp))
      apply ih
      · omega
      · intro c hc
        exact hall c (by simp [hc])
    | case2 text hno =>
      cases text with
      | nil => exact .nil
      | cons c text =>
        cases text with
        | nil => simp at heven
        | cons d text => exact absurd rfl (hno c d text)
  · rintro ⟨hpairs,hplus⟩
    induction hpairs with
    | nil => exact ⟨rfl,by simp⟩
    | @cons hi lo text hhi hlo _ ih =>
      obtain ⟨heven,hall⟩ := ih (by
        intro h
        exact hplus (by simp [h]))
      have hdigit : isAsciiHexdigit hi = true := by
        rcases hhi with hhex | rfl
        · exact hhex
        · exact absurd List.mem_cons_self hplus
      refine ⟨?_,?_⟩
      · simp only [List.length_cons]
        omega
      · simpa using ⟨hdigit,hlo,hall⟩

/-! ## The loop -/

/-- One turn, at an offset between two characters. -/
theorem loop_turn (front : List Char) {rest : List Char} (hrest : rest ≠ []) (output : Bytes) :
    decodeHexLoop? (front ++ rest) (utf8 front).length output =
      match (splitAtByte? rest 2).map Prod.fst with
      | none => none
      | some digits =>
        match parseHexByte digits with
        | .error err => some (.error err.text)
        | .ok byte =>
          decodeHexLoop? (front ++ rest) ((utf8 front).length + 2) (output ++ [UInt8.ofNat byte]) := by
  have hpos := Nat.le_trans (List.length_pos_of_ne_nil hrest) (length_le_utf8 rest)
  have hindex : (utf8 front).length < (utf8 (front ++ rest)).length := by
    rw [utf8_length_append]
    omega
  rw [decodeHexLoop?, if_pos hindex, strSlice?_append]

/-- The loop goes past pairs, and what they stand for is pushed. -/
theorem loop_pairs (front : List Char) {pairs : List Char} (h : HexPairs pairs) (rest : List Char)
    (output : Bytes) :
    decodeHexLoop? (front ++ (pairs ++ rest)) (utf8 front).length output =
      decodeHexLoop? (front ++ (pairs ++ rest)) (utf8 (front ++ pairs)).length
        (output ++ spelled pairs) := by
  induction h generalizing front output with
  | nil =>
    have hnone : spelled [] = [] := rfl
    rw [hnone, List.append_nil, List.append_nil]
  | @cons hi lo text hhi hlo _ ih =>
    have hone := pairFront_size hhi
    have htwo := isAsciiHexdigit_size hlo
    have hsplit : splitAtByte? (hi :: lo :: text ++ rest) 2 = some ([hi, lo], text ++ rest) := by
      rw [List.cons_append, List.cons_append, splitAtByte?_cons (by omega), hone,
        splitAtByte?_cons (by omega), htwo, splitAtByte?]
      rfl
    obtain ⟨-,-,hparse⟩ | ⟨hno,-⟩ := parseHexByte_pair hi lo
    · have hnext : (utf8 front).length + 2 = (utf8 (front ++ [hi, lo])).length := by
        rw [utf8_length_append, utf8_length_cons, utf8_length_cons, hone, htwo]
        rfl
      have hsame : front ++ (hi :: lo :: text ++ rest) = (front ++ [hi, lo]) ++ (text ++ rest) := by
        simp
      have hne : hi :: lo :: text ++ rest ≠ [] := List.cons_ne_nil _ _
      rw [loop_turn front hne, hsplit]
      simp only [Option.map_some, hparse]
      rw [hnext, hsame, ih (front ++ [hi, lo]), spelled]
      simp
    · exact absurd ⟨hhi,hlo⟩ hno

/-- Two bytes that are characters, but no number. -/
def Refused (text : List Char) : Prop :=
  text ≠ [] ∧ ∃ digits rest, splitAtByte? text 2 = some (digits, rest) ∧
    parseHexByte digits = .error .invalidDigit

/-- A text of an even number of bytes is pairs, and then nothing, or what is not parsed, or a
character that a slice would divide. -/
theorem pairs_then (text : List Char) (heven : (utf8 text).length % 2 = 0) :
    ∃ pairs rest, text = pairs ++ rest ∧ HexPairs pairs ∧
      (rest = [] ∨ Straddles rest ∨ Refused rest) := by
  induction hlen : text.length using Nat.strongRecOn generalizing text with
  | _ n ih =>
    by_cases hnil : text = []
    · exact ⟨[],[],hnil,.nil,.inl rfl⟩
    · have hpos := Nat.le_trans (List.length_pos_of_ne_nil hnil) (length_le_utf8 text)
      have htwo : 2 ≤ (utf8 text).length := by omega
      obtain ⟨hi,lo,rest,rfl,hhi,hlo,hsplit⟩ | ⟨c,rest,rfl,hc,hsplit⟩ | ⟨c,rest,rfl,hstraddles,-⟩ :=
        splitAtByte?_two htwo
      · obtain ⟨hfirst,hsecond,-⟩ | ⟨-,hparse⟩ := parseHexByte_pair hi lo
        · rw [utf8_length_cons, utf8_length_cons, hhi, hlo] at heven
          rw [List.length_cons, List.length_cons] at hlen
          obtain ⟨pairs,more,hrest,hpairs,hmore⟩ := ih rest.length (by omega) rest (by omega) rfl
          exact ⟨hi :: lo :: pairs,more,by simp [hrest],.cons hfirst hsecond hpairs,hmore⟩
        · exact ⟨[],_,rfl,.nil,.inr (.inr ⟨hnil,_,_,hsplit,hparse⟩)⟩
      · exact ⟨[],_,rfl,.nil,.inr (.inr ⟨hnil,_,_,hsplit,parseHexByte_wide hc⟩)⟩
      · exact ⟨[],_,rfl,.nil,.inr (.inl ⟨c,rest,rfl,hstraddles⟩)⟩

theorem Straddles.split {text : List Char} (h : Straddles text) : splitAtByte? text 2 = none := by
  obtain ⟨c,rest,rfl,hwide | ⟨hone,d,more,rfl,hd⟩⟩ := h
  · exact splitAtByte?_within (by omega) (by decide) rest
  · rw [splitAtByte?_cons (by omega), hone, splitAtByte?_within (by omega) (by decide)]
    rfl

theorem loop_ok {pairs : List Char} (h : HexPairs pairs) :
    decodeHexLoop? pairs 0 [] = some (.ok (spelled pairs)) := by
  have hloop := loop_pairs [] h [] []
  simp only [List.nil_append, List.append_nil] at hloop
  have hzero : (utf8 []).length = 0 := rfl
  rw [hzero] at hloop
  rw [hloop, decodeHexLoop?, if_neg (Nat.lt_irrefl _)]

theorem loop_straddles {pairs rest : List Char} (h : HexPairs pairs) (hrest : Straddles rest) :
    decodeHexLoop? (pairs ++ rest) 0 [] = none := by
  have hloop := loop_pairs [] h rest []
  have hne : rest ≠ [] := by
    obtain ⟨c,more,rfl,-⟩ := hrest
    exact List.cons_ne_nil c more
  have hzero : (utf8 []).length = 0 := rfl
  rw [List.nil_append, List.nil_append, List.nil_append, hzero] at hloop
  rw [hloop, loop_turn pairs hne, hrest.split]
  rfl

theorem loop_refused {pairs rest : List Char} (h : HexPairs pairs) (hrest : Refused rest) :
    decodeHexLoop? (pairs ++ rest) 0 [] = some (.error ParseIntError.invalidDigit.text) := by
  have hloop := loop_pairs [] h rest []
  obtain ⟨hne,digits,more,hsplit,hparse⟩ := hrest
  have hzero : (utf8 []).length = 0 := rfl
  rw [List.nil_append, List.nil_append, List.nil_append, hzero] at hloop
  rw [hloop, loop_turn pairs hne, hsplit]
  simp only [Option.map_some, hparse]

/-! ## Where it goes wrong -/

/-- An even number of bytes, and a slice that ends within a character behind some pairs. -/
def Panics (text : List Char) : Prop := (utf8 text).length % 2 = 0 ∧ StopsInside text

theorem decodeHex?_pairs {value : String} (h : HexPairs (trim value.toList)) :
    decodeHex? value = some (.ok (spelled (trim value.toList))) := by
  rw [decodeHex?]
  generalize trim value.toList = text at h ⊢
  have heven : (utf8 text).length % 2 = 0 := by
    rw [h.utf8_length]
    omega
  by_cases hnil : text = []
  · subst hnil
    simp [spelled]
  · simp only [if_neg hnil, if_neg (not_not.mpr heven)]
    exact loop_ok h

theorem decodeHex?_panics {value : String} (h : Panics (trim value.toList)) :
    decodeHex? value = none := by
  rw [decodeHex?]
  generalize trim value.toList = text at h ⊢
  obtain ⟨heven,pairs,rest,rfl,hpairs,hstraddles⟩ := h
  have hnil : pairs ++ rest ≠ [] := by
    obtain ⟨c,more,rfl,-⟩ := hstraddles
    simp
  simp only [if_neg hnil, if_neg (not_not.mpr heven)]
  exact loop_straddles hpairs hstraddles

/-- What is neither pairs nor a panic is refused. -/
theorem decodeHex?_cases (value : String) :
    HexPairs (trim value.toList) ∨ Panics (trim value.toList) ∨
      ∃ err, decodeHex? value = some (.error err) := by
  rw [decodeHex?]
  generalize trim value.toList = text
  by_cases hnil : text = []
  · subst hnil
    exact .inl .nil
  · by_cases heven : (utf8 text).length % 2 = 0
    · simp only [if_neg hnil, if_neg (not_not.mpr heven)]
      obtain ⟨pairs,rest,rfl,hpairs,rfl | hstraddles | hrefused⟩ := pairs_then text heven
      · rw [List.append_nil]
        exact .inl hpairs
      · exact .inr (.inl ⟨heven,pairs,rest,rfl,hpairs,hstraddles⟩)
      · exact .inr (.inr ⟨_,loop_refused hpairs hrefused⟩)
    · simp only [if_neg hnil, if_pos heven]
      exact .inr (.inr ⟨_,rfl⟩)

theorem decodeHex?_none_iff (value : String) :
    decodeHex? value = none ↔ Panics (trim value.toList) := by
  constructor
  · intro h
    obtain hpairs | hpanics | ⟨err,herr⟩ := decodeHex?_cases value
    · rw [decodeHex?_pairs hpairs] at h
      cases h
    · exact hpanics
    · rw [herr] at h
      cases h
  · exact decodeHex?_panics

/-- Pairs are accepted, with a plus sign or without. -/
theorem decodeHex?_ok_iff (value : String) (bytes : Bytes) :
    decodeHex? value = some (.ok bytes) ↔
      HexPairs (trim value.toList) ∧ bytes = spelled (trim value.toList) := by
  constructor
  · intro h
    obtain hpairs | hpanics | ⟨err,herr⟩ := decodeHex?_cases value
    · rw [decodeHex?_pairs hpairs] at h
      cases h
      exact ⟨hpairs,rfl⟩
    · rw [decodeHex?_panics hpanics] at h
      cases h
    · rw [herr] at h
      cases h
  · rintro ⟨hpairs,rfl⟩
    exact decodeHex?_pairs hpairs

/-- The key is decoded first, and only behind a key of 32 bytes the short id. -/
theorem new?_none_iff (decode : DecodeKey) (publicKey shortId : String) :
    RealitySessionId.new? decode publicKey shortId = none ↔
      (∃ key, decode publicKey = .ok key ∧ key.length = 32) ∧ Panics (trim shortId.toList) := by
  rw [← decodeHex?_none_iff, RealitySessionId.new?]
  cases hdecode : decode publicKey with
  | error err => simp
  | ok key =>
    by_cases hkey : key.length = 32
    · cases hresult : decodeHex? shortId with
      | none => simp [hkey]
      | some r =>
        cases r with
        | error err => simp [hkey]
        | ok bytes => by_cases hshort : bytes.length ≤ 8 <;> simp [hkey, hshort]
    · simp [hkey]

theorem fromNode_shortId {node : KernelNode} {publicKey shortId : String} {fingerprint : Option String}
    (h : VlessSecurity.fromNode node = .ok (.reality publicKey shortId fingerprint)) :
    node.parameter "sid" = some shortId := by
  rw [VlessSecurity.fromNode] at h
  split at h
  · cases h
  · cases h
  · split at h
    · cases h
    · split at h
      · cases h
      · split at h
        · cases h
        · cases h
          assumption
  · cases h

theorem fromNode?_security {node : KernelNode} {config : VlessConfig}
    (h : VlessConfig.fromNode? node = some (.ok config)) :
    VlessSecurity.fromNode node = .ok config.security := by
  obtain ⟨r,hr⟩ := parseUuid?_returns node.userId
  rw [VlessConfig.fromNode?, hr] at h
  cases r with
  | error err => cases h
  | ok uuid =>
    cases hsecurity : VlessSecurity.fromNode node with
    | error err =>
      rw [hsecurity] at h
      cases h
    | ok security =>
      cases htransport : VlessTransport.fromNode node with
      | error err =>
        rw [hsecurity, htransport] at h
        cases h
      | ok transport =>
        rw [hsecurity, htransport] at h
        cases h
        rfl

/-- The check of a node panics if its configuration is one for REALITY, and `new` does. -/
theorem validate?_none_iff (decode : DecodeKey) (node : KernelNode) :
    validate? decode node = none ↔ ∃ config publicKey shortId fingerprint,
      VlessConfig.fromNode? node = some (.ok config) ∧
      config.security = .reality publicKey shortId fingerprint ∧
      RealitySessionId.new? decode publicKey shortId = none := by
  obtain ⟨r,hr⟩ := fromNode?_returns node
  rw [validate?, hr]
  cases r with
  | error err => simp
  | ok config =>
    cases hsecurity : config.security with
    | none => simp [hsecurity]
    | tls => simp [hsecurity]
    | reality publicKey shortId fingerprint => simp [hsecurity]

/-- What the parsing of a short id should do, whatever the key and the node are. -/
structure ParsesShortId (decode : DecodeKey) (shortId : String) : Prop where
  returns : ∀ publicKey, ∃ r, RealitySessionId.new? decode publicKey shortId = some r
  decodes : ∃ r, decodeHex? shortId = some r
  accepts : ∀ bytes, decodeHex? shortId = some (.ok bytes) ↔
    EvenHex (trim shortId.toList) ∧ bytes = spelled (trim shortId.toList)
  validates : ∀ node, node.parameter "sid" = some shortId → ∃ r, validate? decode node = some r

theorem returns_of_not_panics (decode : DecodeKey) {shortId : String}
    (h : ¬ Panics (trim shortId.toList)) (publicKey : String) :
    ∃ r, RealitySessionId.new? decode publicKey shortId = some r := by
  rw [← Option.ne_none_iff_exists']
  intro hnone
  exact h ((new?_none_iff decode publicKey shortId).mp hnone).2

/-- The panic of a node's check, by its short id. -/
theorem validate?_panics_iff (decode : DecodeKey) {node : KernelNode} {shortId : String}
    (h : node.parameter "sid" = some shortId) :
    validate? decode node = none ↔ (∃ config publicKey fingerprint,
      VlessConfig.fromNode? node = some (.ok config) ∧
      config.security = .reality publicKey shortId fingerprint ∧
      ∃ key, decode publicKey = .ok key ∧ key.length = 32) ∧ Panics (trim shortId.toList) := by
  rw [validate?_none_iff]
  constructor
  · rintro ⟨config,publicKey,shortId',fingerprint,hconfig,hsecurity,hnone⟩
    have hsame := fromNode_shortId ((fromNode?_security hconfig).trans (congrArg Except.ok hsecurity))
    rw [h, Option.some.injEq] at hsame
    subst hsame
    obtain ⟨hkey,hpanics⟩ := (new?_none_iff decode publicKey shortId).mp hnone
    exact ⟨⟨config,publicKey,fingerprint,hconfig,hsecurity,hkey⟩,hpanics⟩
  · rintro ⟨⟨config,publicKey,fingerprint,hconfig,hsecurity,hkey⟩,hpanics⟩
    exact ⟨config,publicKey,shortId,fingerprint,hconfig,hsecurity,
      (new?_none_iff decode publicKey shortId).mpr ⟨hkey,hpanics⟩⟩

/-- A short id is parsed as it should be exactly if no slice divides a character and no plus
sign stands for a digit; and a panic needs nothing but a key of 32 bytes in front of it. -/
theorem reality_short_id_iff (decode : DecodeKey) (shortId : String) :
    (ParsesShortId decode shortId ↔
      ¬ Panics (trim shortId.toList) ∧ ¬ Signed (trim shortId.toList)) ∧
    (∀ publicKey, RealitySessionId.new? decode publicKey shortId = none ↔
      (∃ key, decode publicKey = .ok key ∧ key.length = 32) ∧ Panics (trim shortId.toList)) ∧
    ∀ node, node.parameter "sid" = some shortId → (validate? decode node = none ↔
      (∃ config publicKey fingerprint, VlessConfig.fromNode? node = some (.ok config) ∧
        config.security = .reality publicKey shortId fingerprint ∧
        ∃ key, decode publicKey = .ok key ∧ key.length = 32) ∧ Panics (trim shortId.toList)) := by
  refine ⟨⟨?_,?_⟩,fun publicKey => new?_none_iff decode publicKey shortId,
    fun node hnode => validate?_panics_iff decode hnode⟩
  · intro h
    refine ⟨?_,?_⟩
    · intro hpanics
      obtain ⟨r,hr⟩ := h.decodes
      rw [(decodeHex?_none_iff shortId).mpr hpanics] at hr
      cases hr
    · rintro ⟨hpairs,hplus⟩
      have haccepts := (h.accepts _).mp ((decodeHex?_ok_iff shortId _).mpr ⟨hpairs,rfl⟩)
      exact ((evenHex_iff _).mp haccepts.1).2 hplus
  · rintro ⟨hpanics,hsigned⟩
    refine ⟨returns_of_not_panics decode hpanics,?_,?_,?_⟩
    · rw [← Option.ne_none_iff_exists']
      exact mt (decodeHex?_none_iff shortId).mp hpanics
    · intro bytes
      rw [decodeHex?_ok_iff, evenHex_iff]
      constructor
      · rintro ⟨hpairs,hbytes⟩
        exact ⟨⟨hpairs,fun hplus => hsigned ⟨hpairs,hplus⟩⟩,hbytes⟩
      · rintro ⟨⟨hpairs,-⟩,hbytes⟩
        exact ⟨hpairs,hbytes⟩
    · intro node hnode
      rw [← Option.ne_none_iff_exists']
      intro hnone
      exact hpanics ((validate?_panics_iff decode hnode).mp hnone).2

/-- The text of a key of 32 zeroes, and a decoder that knows it. -/
def zeroKey : String := "AAAAAAAAAAAAAAAAAAAAAAAAAAAAAAAAAAAAAAAAAAA"

def decodeZeros : DecodeKey := fun text =>
  if text = zeroKey then .ok (List.replicate 32 0) else .error "Invalid input"

/-- A node for REALITY. -/
def realityNode (shortId : String) : KernelNode where
  server := "example.com"
  serverPort := 443
  userId := "00000000-0000-0000-0000-000000000000"
  parameters := .object [("security", .string "reality"), ("sni", .string "example.com"),
    ("pbk", .string zeroKey), ("sid", .string shortId)]

def realityConfig (shortId : String) : VlessConfig where
  server := "example.com"
  serverPort := 443
  uuid := Vector.replicate 16 0
  sni := some "example.com"
  flow := none
  security := .reality zeroKey shortId none
  transport := ⟨.tcp, none, "/", "Tun", none, .auto, .auto, 256 * 1024, 0, ⟨0, 0, 0, 0, 0⟩⟩
  insecure := false

theorem euro_panics : Panics (trim "€a".toList) := by
  have htext : trim "€a".toList = ['€', 'a'] := by decide
  rw [htext]
  exact ⟨by decide,[],_,rfl,.nil,'€',['a'],rfl,.inl (by decide)⟩

/-- A character of three bytes and a digit: the slice ends within the character. And a plus sign
with a digit is taken for a byte. -/
theorem short_id_panics :
    validate? decodeZeros (realityNode "€a") = none ∧
      RealitySessionId.new? decodeZeros zeroKey "€a" = none ∧
      decodeHex? "+5" = some (.ok [5]) ∧
      ¬ ParsesShortId decodeZeros "€a" ∧ ¬ ParsesShortId decodeZeros "+5" := by
  have hkey : ∃ key, decodeZeros zeroKey = .ok key ∧ key.length = 32 := ⟨_,rfl,rfl⟩
  have hnew := (new?_none_iff decodeZeros zeroKey "€a").mpr ⟨hkey,euro_panics⟩
  have hconfig : VlessConfig.fromNode? (realityNode "€a") = some (.ok (realityConfig "€a")) := by
    decide +kernel
  have htext : trim "+5".toList = ['+', '5'] := by decide
  have hpairs : HexPairs ['+', '5'] := .cons (.inr rfl) (by decide) .nil
  have hplus : decodeHex? "+5" = some (.ok [5]) := by
    rw [decodeHex?_ok_iff, htext]
    exact ⟨hpairs,by decide⟩
  refine ⟨?_,hnew,hplus,?_,?_⟩
  · rw [validate?_none_iff]
    exact ⟨realityConfig "€a",zeroKey,"€a",none,hconfig,rfl,hnew⟩
  · intro h
    obtain ⟨r,hr⟩ := h.returns zeroKey
    rw [hnew] at hr
    cases hr
  · intro h
    have heven := ((h.accepts [5]).mp hplus).1
    rw [htext, evenHex_iff] at heven
    exact heven.2 List.mem_cons_self

end AtlasKernel.Vless
