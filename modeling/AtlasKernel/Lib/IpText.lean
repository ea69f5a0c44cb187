import AtlasKernel.Lib.SocketAddr

/-! The canonical text of an address is read back as the address. -/
namespace AtlasKernel.Lib

/-! ## Digits -/

theorem mem_toDigits {radix n : Nat} {c : Char} (hradix : 1 < radix)
    (h : c ∈ Nat.toDigits radix n) : ∃ d < radix, c = Nat.digitChar d := by
  induction n using Nat.strongRecOn with
  | ind n ih =>
    by_cases hn : n < radix
    · rw [Nat.toDigits_of_lt_base hn, List.mem_singleton] at h
      exact ⟨n,hn,h⟩
    · rw [Nat.toDigits_of_base_le hradix (by omega), List.mem_append, List.mem_singleton] at h
      rcases h with h | h
      · exact ih (n / radix) (Nat.div_lt_self (by omega) hradix) h
      · exact ⟨_,Nat.mod_lt _ (by omega),h⟩

theorem parseDigits_append {bound value n : Nat} {as : List Char}
    (h : parseDigits bound value as = some n) (bs : List Char) :
    parseDigits bound value (as ++ bs) = parseDigits bound n bs := by
  induction as generalizing value with
  | nil =>
    cases h
    rfl
  | cons c as ih =>
    rw [parseDigits] at h
    rw [List.cons_append, parseDigits]
    cases hdigit : digitValue c with
    | none => simp [hdigit] at h
    | some digit =>
      simp only [hdigit] at h ⊢
      split at h
      · cases h
      · next hbound =>
        rw [if_neg hbound]
        exact ih h

theorem digitValue_digitChar : ∀ d < 10, digitValue (Nat.digitChar d) = some d := by decide

theorem parseDigits_toDigits {bound n : Nat} (h : n ≤ bound) :
    parseDigits bound 0 (Nat.toDigits 10 n) = some n := by
  induction n using Nat.strongRecOn with
  | ind n ih =>
    by_cases hn : n < 10
    · rw [Nat.toDigits_of_lt_base hn, parseDigits, digitValue_digitChar n hn]
      simp only [Nat.zero_mul, Nat.zero_add]
      rw [if_neg (by omega)]
      rfl
    · rw [Nat.toDigits_of_base_le (by decide) (by omega),
        parseDigits_append (ih (n / 10) (by omega) (by omega)), parseDigits,
        digitValue_digitChar (n % 10) (by omega)]
      simp only [Nat.div_add_mod']
      rw [if_neg (by omega)]
      rfl

/-- Decimal text is read back. -/
theorem parseUnsigned_toDigits {bound n : Nat} (h : n ≤ bound) :
    parseUnsigned bound (Nat.toDigits 10 n) = some n := by
  have hparse := parseDigits_toDigits h
  have hdigits : ∀ c ∈ Nat.toDigits 10 n, c.isDigit = true :=
    fun c hc => Nat.isDigit_of_mem_toDigits (by decide) (by decide) hc
  cases htext : Nat.toDigits 10 n with
  | nil => exact absurd htext Nat.toDigits_ne_nil
  | cons c cs =>
    rw [htext] at hparse hdigits
    have hplus : c ≠ '+' := by
      rintro rfl
      exact absurd (hdigits '+' List.mem_cons_self) (by decide)
    unfold parseUnsigned
    split
    · next heq => cases heq
    · next heq => exact absurd (List.cons.inj heq).1 hplus
    · next heq =>
      cases heq
      exact hparse

theorem readNumber_text {radix n maxDigits bound : Nat} (allowZero : Bool) (hradix : 1 < radix)
    (hradix' : radix ≤ 16) (hbound : n ≤ bound) (hcount : n < radix ^ maxDigits)
    (hpos : 0 < maxDigits) {more : Bytes} (hmore : ∀ b ∈ more.head?, toDigit radix b = none) :
    readNumber radix maxDigits bound allowZero (utf8 (Nat.toDigits radix n) ++ more) =
      some (n, more) := by
  have hlen := (Nat.length_toDigits_le_iff hradix hpos).mpr hcount
  exact readNumber_stop hmore (readNumber_toDigits allowZero hradix hradix' hbound hlen)

theorem readDigits_suffix {radix maxDigits bound n count n' count' : Nat} {bs rest : Bytes}
    (h : readDigits radix maxDigits bound bs n count = some (n', count', rest)) : rest <:+ bs := by
  induction bs generalizing n count with
  | nil =>
    cases h
    exact List.suffix_rfl
  | cons b bs ih =>
    rw [readDigits] at h
    split at h
    · cases h
      exact List.suffix_rfl
    · split at h
      · cases h
      · split at h
        · cases h
        · exact (ih h).trans (List.suffix_cons b bs)

theorem readNumber_suffix {radix maxDigits bound n : Nat} {allowZero : Bool} {bs rest : Bytes}
    (h : readNumber radix maxDigits bound allowZero bs = some (n, rest)) : rest <:+ bs := by
  unfold readNumber at h
  split at h
  · cases h
  · next hdigits =>
    split at h
    · cases h
    · split at h
      · cases h
      · cases h
        exact readDigits_suffix hdigits

theorem readNumber_noDigit {radix maxDigits bound : Nat} {allowZero : Bool} {bs : Bytes}
    (h : ∀ b ∈ bs.head?, toDigit radix b = none) :
    readNumber radix maxDigits bound allowZero bs = none := by
  cases bs with
  | nil => rfl
  | cons b bs =>
    rw [readNumber, readDigits, h b rfl]
    rfl

/-! ## IPv4 -/

theorem readOctet_text (b : UInt8) {more : Bytes} (hmore : ∀ c ∈ more.head?, toDigit 10 c = none) :
    readNumber 10 3 255 false (utf8 (Nat.toDigits 10 b.toNat) ++ more) = some (b.toNat, more) := by
  have hlt := b.toNat_lt
  exact readNumber_text false (by decide) (by decide) (by omega) (by omega) (by decide) hmore

theorem readIpv4Addr_text (ip : Ipv4Addr) {more : Bytes}
    (hmore : ∀ c ∈ more.head?, toDigit 10 c = none) :
    readIpv4Addr (utf8 ip.text ++ more) = some (ip.octets, more) := by
  obtain ⟨octets,size⟩ := ip
  obtain ⟨a,b,c,d,rfl⟩ : ∃ a b c d, octets = [a,b,c,d] := by
    match octets, size with
    | [a,b,c,d], _ => exact ⟨a,b,c,d,rfl⟩
  have hdot (bs : Bytes) : ∀ c ∈ (0x2e :: bs : Bytes).head?, toDigit 10 c = none := by
    intro c hc
    cases hc
    decide
  have htext : utf8 (Ipv4Addr.text ⟨[a,b,c,d],size⟩) ++ more =
      utf8 (Nat.toDigits 10 a.toNat) ++ 0x2e :: (utf8 (Nat.toDigits 10 b.toNat) ++
        0x2e :: (utf8 (Nat.toDigits 10 c.toNat) ++ 0x2e :: (utf8 (Nat.toDigits 10 d.toNat) ++ more))) := by
    simp only [Ipv4Addr.text, List.map_cons, List.map_nil, List.intercalate, List.intersperse,
      List.flatten_cons, List.flatten_nil, List.append_nil, utf8_append, List.append_assoc]
    rfl
  rw [htext, readIpv4Addr_of (readOctet_text a (hdot _)) (readOctet_text b (hdot _))
    (readOctet_text c (hdot _)) (readOctet_text d hmore)]
  simp

theorem parseIpv4_text (ip : Ipv4Addr) : parseIpv4 (utf8 ip.text) = some ip.octets := by
  have hread := @readIpv4Addr_text ip [] (fun c hc => by cases hc)
  rw [List.append_nil] at hread
  have hshort := readIpv4Addr_short hread
  rw [List.length_nil] at hshort
  rw [parseIpv4, if_neg (by omega), parseWith, hread]

theorem mem_intercalate {sep c : Char} {parts : List (List Char)}
    (h : c ∈ [sep].intercalate parts) : c = sep ∨ ∃ part ∈ parts, c ∈ part := by
  induction parts with
  | nil => cases h
  | cons part parts ih =>
    cases parts with
    | nil =>
      rw [List.intercalate_singleton] at h
      exact .inr ⟨part,List.mem_cons_self,h⟩
    | cons part' parts =>
      rw [List.intercalate_cons_cons, List.mem_append, List.mem_append, List.mem_singleton] at h
      rcases h with (h | h) | h
      · exact .inr ⟨part,List.mem_cons_self,h⟩
      · exact .inl h
      · rcases ih h with h | ⟨q,hq,hc⟩
        · exact .inl h
        · exact .inr ⟨q,List.mem_cons_of_mem _ hq,hc⟩

theorem Ipv4Addr.mem_text {ip : Ipv4Addr} {c : Char} (h : c ∈ ip.text) :
    c = '.' ∨ c.isDigit = true := by
  rcases mem_intercalate h with h | ⟨part,hpart,hc⟩
  · exact .inl h
  · obtain ⟨b,-,rfl⟩ := List.mem_map.mp hpart
    exact .inr (Nat.isDigit_of_mem_toDigits (by decide) (by decide) hc)

/-- Without a dot there is no IPv4 address. -/
theorem readIpv4Addr_noDot {input : Bytes} (h : 0x2e ∉ input) : readIpv4Addr input = none := by
  cases hread : readIpv4Addr input with
  | none => rfl
  | some r =>
    obtain ⟨a,b,c,d,r₁,r₂,r₃,_,ha,-⟩ := readIpv4Addr_some hread
    exact absurd ((readNumber_suffix ha).subset List.mem_cons_self) h

theorem readIpv4Addr_noDigit {input : Bytes} (h : ∀ b ∈ input.head?, toDigit 10 b = none) :
    readIpv4Addr input = none := by
  cases hread : readIpv4Addr input with
  | none => rfl
  | some r =>
    obtain ⟨a,b,c,d,r₁,r₂,r₃,_,ha,-⟩ := readIpv4Addr_some hread
    rw [readNumber_noDigit h] at ha
    cases ha

/-! ## IPv6: groups -/

/-- Groups, each behind a colon. -/
def colonGroups (chunk : List Nat) : Bytes := chunk.flatMap fun g => 0x3a :: utf8 (Nat.toDigits 16 g)

theorem hexGroups_cons (g : Nat) (chunk : List Nat) :
    utf8 (hexGroups (g :: chunk)) = utf8 (Nat.toDigits 16 g) ++ colonGroups chunk := by
  induction chunk generalizing g with
  | nil =>
    rw [hexGroups, List.map_cons, List.map_nil, List.intercalate_singleton]
    exact (List.append_nil _).symm
  | cons g' chunk ih =>
    have hrest := ih g'
    rw [hexGroups, List.map_cons] at hrest
    rw [hexGroups, List.map_cons, List.map_cons, List.intercalate_cons_cons, utf8_append,
      utf8_append, hrest]
    simp only [colonGroups, List.flatMap_cons, List.append_assoc]
    rfl

theorem hexDigits_noDot (n : Nat) : 0x2e ∉ utf8 (Nat.toDigits 16 n) := by
  intro h
  obtain ⟨c,hc,hbyte⟩ := List.mem_flatMap.mp h
  obtain ⟨d,hd,rfl⟩ := mem_toDigits (by decide) hc
  have hall : ∀ d < 16, 0x2e ∉ String.utf8EncodeChar (Nat.digitChar d) := by decide
  exact hall d hd hbyte

theorem colonGroups_noDot (chunk : List Nat) : 0x2e ∉ colonGroups chunk := by
  intro h
  obtain ⟨g,-,hbyte⟩ := List.mem_flatMap.mp h
  rcases List.mem_cons.mp hbyte with hcolon | hdigit
  · cases hcolon
  · exact hexDigits_noDot g hdigit

/-- What ends the groups: nothing, or two colons. -/
def EndsGroups (rest : Bytes) : Prop := rest = [] ∨ ∃ more, rest = 0x3a :: 0x3a :: more

theorem EndsGroups.noDigit {rest : Bytes} (h : EndsGroups rest) {radix : Nat} :
    ∀ b ∈ rest.head?, toDigit radix b = none := by
  rcases h with rfl | ⟨more,rfl⟩
  · exact fun b hb => by cases hb
  · intro b hb
    cases hb
    rfl

theorem colonGroups_noDigit (chunk : List Nat) {rest : Bytes} (h : EndsGroups rest) {radix : Nat} :
    ∀ b ∈ (colonGroups chunk ++ rest).head?, toDigit radix b = none := by
  cases chunk with
  | nil => exact h.noDigit
  | cons g chunk =>
    intro b hb
    cases hb
    rfl

/-- No group is read where the groups end. -/
theorem readSeparator_ends {β : Type*} {inner : Bytes → Option (β × Bytes)} {rest : Bytes}
    (hinner : ∀ input : Bytes, (∀ b ∈ input.head?, toDigit 16 b = none) → inner input = none)
    (h : EndsGroups rest) (index : Nat) : readSeparator 0x3a index inner rest = none := by
  rw [readSeparator]
  split
  · rcases h with rfl | ⟨more,rfl⟩
    · rfl
    · refine hinner _ fun b hb => ?_
      cases hb
      rfl
  · exact hinner _ h.noDigit

theorem toDigit_ten_of_hex {b : UInt8} (h : toDigit 16 b = none) : toDigit 10 b = none := by
  cases hten : toDigit 10 b with
  | none => rfl
  | some digit =>
    have hlt := (toDigit_ten hten).1
    rw [toDigit_of_lt hten (by omega)] at h
    cases h

theorem readGroups_ends {rest : Bytes} (h : EndsGroups rest) (index left : Nat) :
    readGroups index left rest = ([], false, rest) := by
  cases left with
  | zero => rfl
  | succ left =>
    have hipv4 : readSeparator 0x3a index readIpv4Addr rest = none :=
      readSeparator_ends (fun input hinput => readIpv4Addr_noDigit
        fun b hb => toDigit_ten_of_hex (hinput b hb)) h index
    have hgroup : readSeparator 0x3a index (readNumber 16 4 65535 true) rest = none :=
      readSeparator_ends (fun _ hinput => readNumber_noDigit hinput) h index
    rw [readGroups, hipv4, ite_self, hgroup]

/-- One group is read, and then what is left. -/
theorem readGroups_one {index left g : Nat} {input more : Bytes} (hg : g < 65536)
    (hsep : ∀ {β : Type} (inner : Bytes → Option (β × Bytes)),
      readSeparator 0x3a index inner input = inner (utf8 (Nat.toDigits 16 g) ++ more))
    (hmore : ∀ b ∈ more.head?, toDigit 16 b = none)
    (hipv4 : readIpv4Addr (utf8 (Nat.toDigits 16 g) ++ more) = none) :
    readGroups index (left + 1) input =
      (be16 g :: (readGroups (index + 1) left more).1, (readGroups (index + 1) left more).2) := by
  have hgroup := @readNumber_text 16 g 4 65535 true (by decide) (by decide) (by omega) (by omega)
    (by decide) more hmore
  rw [readGroups, hsep, hsep, hipv4, ite_self, hgroup]

theorem readGroups_colons {chunk : List Nat} {rest : Bytes} (hchunk : ∀ g ∈ chunk, g < 65536)
    (hdot : 0x2e ∉ rest) (hrest : EndsGroups rest) {index left : Nat} (hindex : 0 < index)
    (hle : chunk.length ≤ left) :
    readGroups index left (colonGroups chunk ++ rest) = (chunk.map be16, false, rest) := by
  induction chunk generalizing index left with
  | nil => exact readGroups_ends hrest index left
  | cons g chunk ih =>
    obtain ⟨left,rfl⟩ : ∃ n, left = n + 1 := ⟨left - 1,by rw [List.length_cons] at hle; omega⟩
    have hfree : 0x2e ∉ utf8 (Nat.toDigits 16 g) ++ (colonGroups chunk ++ rest) := by
      simp only [List.mem_append, not_or]
      exact ⟨hexDigits_noDot g,colonGroups_noDot chunk,hdot⟩
    have hsep {β : Type} (inner : Bytes → Option (β × Bytes)) :
        readSeparator 0x3a index inner (colonGroups (g :: chunk) ++ rest) =
          inner (utf8 (Nat.toDigits 16 g) ++ (colonGroups chunk ++ rest)) := by
      rw [readSeparator, if_pos hindex, colonGroups, List.flatMap_cons, List.append_assoc]
      rfl
    rw [readGroups_one (hchunk g List.mem_cons_self) hsep (colonGroups_noDigit chunk hrest)
      (readIpv4Addr_noDot hfree),
      ih (fun g hg => hchunk g (List.mem_cons_of_mem _ hg)) (Nat.succ_pos index)
        (Nat.le_of_succ_le_succ hle)]
    rfl

/-- Groups that were written are read to their end. -/
theorem readGroups_hexGroups {chunk : List Nat} {rest : Bytes} (hchunk : ∀ g ∈ chunk, g < 65536)
    (hdot : 0x2e ∉ rest) (hrest : EndsGroups rest) {left : Nat} (hle : chunk.length ≤ left) :
    readGroups 0 left (utf8 (hexGroups chunk) ++ rest) = (chunk.map be16, false, rest) := by
  cases chunk with
  | nil => exact readGroups_ends hrest 0 left
  | cons g chunk =>
    obtain ⟨left,rfl⟩ : ∃ n, left = n + 1 := ⟨left - 1,by rw [List.length_cons] at hle; omega⟩
    have hfree : 0x2e ∉ utf8 (Nat.toDigits 16 g) ++ (colonGroups chunk ++ rest) := by
      simp only [List.mem_append, not_or]
      exact ⟨hexDigits_noDot g,colonGroups_noDot chunk,hdot⟩
    rw [hexGroups_cons, List.append_assoc,
      readGroups_one (hchunk g List.mem_cons_self) (fun _ => rfl) (colonGroups_noDigit chunk hrest)
        (readIpv4Addr_noDot hfree),
      readGroups_colons (fun g hg => hchunk g (List.mem_cons_of_mem _ hg)) hdot hrest
        (Nat.succ_pos 0) (Nat.le_of_succ_le_succ hle)]
    rfl

/-! ## IPv6: the run of zeros -/

/-- A run of zeros in a list. -/
def Span.IsZeroes (span : Span) (segments : List Nat) : Prop :=
  ∃ before behind, segments = before ++ List.replicate span.len 0 ++ behind ∧
    before.length = span.start

theorem Span.IsZeroes.append {span : Span} {segments : List Nat} (h : span.IsZeroes segments)
    (more : List Nat) : span.IsZeroes (segments ++ more) := by
  obtain ⟨before,behind,rfl,hstart⟩ := h
  exact ⟨before,behind ++ more,by rw [List.append_assoc _ behind],hstart⟩

/-- `current` is the run at the end of the segments that were seen. -/
theorem longestZeroes_isZeroes (todo seen : List Nat) {longest current : Span}
    (hlongest : longest.IsZeroes seen)
    (hcurrent : current.len = 0 ∨ ∃ before, seen = before ++ List.replicate current.len 0 ∧
      before.length = current.start) :
    (longestZeroes seen.length longest current todo).IsZeroes (seen ++ todo) := by
  induction todo generalizing seen longest current with
  | nil => exact hlongest.append []
  | cons segment todo ih =>
    have hseen : seen ++ segment :: todo = seen ++ [segment] ++ todo := by simp
    have hlen : (seen ++ [segment]).length = seen.length + 1 := by simp
    cases segment with
    | succ n =>
      rw [longestZeroes, hseen, ← hlen]
      · exact ih _ (hlongest.append _) (.inl rfl)
      · exact fun h => Nat.succ_ne_zero n h
    | zero =>
      have hnext : ∃ before, seen ++ [0] = before ++ List.replicate (current.len + 1) 0 ∧
          before.length = if current.len = 0 then seen.length else current.start := by
        rcases hcurrent with hzero | ⟨before,hbefore,hstart⟩
        · exact ⟨seen,by simp [hzero],by rw [if_pos hzero]⟩
        · by_cases hzero : current.len = 0
          · exact ⟨seen,by simp [hzero],by rw [if_pos hzero]⟩
          · refine ⟨before,?_,by rw [if_neg hzero, hstart]⟩
            rw [List.replicate_succ', ← List.append_assoc, ← hbefore]
      rw [longestZeroes, hseen, ← hlen]
      generalize (if current.len = 0 then seen.length else current.start) = start at hnext
      apply ih
      · split
        · obtain ⟨before,hbefore,hstart⟩ := hnext
          exact ⟨before,[],by rw [hbefore, List.append_nil],hstart⟩
        · exact hlongest.append _
      · exact .inr hnext

/-! ## IPv6: the text -/

theorem pairs_octets (n : Nat) {octets : Bytes} (h : octets.length = 2 * n) :
    ((List.range n).map fun i => be16 (be16At octets (2 * i))).flatten = octets := by
  induction n generalizing octets with
  | zero => exact (List.length_eq_zero_iff.mp h).symm
  | succ n ih =>
    obtain ⟨a,b,octets,rfl⟩ : ∃ a b more, octets = a :: b :: more := by
      match octets, h with
      | a :: b :: more, _ => exact ⟨a,b,more,rfl⟩
    have hlen : octets.length = 2 * n := by
      simp only [List.length_cons] at h
      omega
    have hrest := ih hlen
    have hshift (i : Nat) : be16At (a :: b :: octets) (2 * (i + 1)) = be16At octets (2 * i) := rfl
    rw [List.range_succ_eq_map, List.map_cons, List.map_map, List.flatten_cons]
    simp only [Function.comp_def, Nat.succ_eq_add_one, hshift]
    rw [hrest]
    exact congrArg (· ++ octets) (be16_ofBe16 a b)

theorem segments_octets (ip : Ipv6Addr) : (ip.segments.map be16).flatten = ip.octets := by
  rw [Ipv6Addr.segments, List.map_map]
  exact pairs_octets 8 ip.size

theorem segments_length (ip : Ipv6Addr) : ip.segments.length = 8 := by
  simp [Ipv6Addr.segments]

theorem segments_lt (ip : Ipv6Addr) : ∀ g ∈ ip.segments, g < 65536 := by
  intro g hg
  obtain ⟨i,-,rfl⟩ := List.mem_map.mp hg
  exact be16At_lt _ _

/-- Groups on both sides of two colons. -/
theorem readIpv6Addr_compressed {before behind : List Nat} (hbefore : ∀ g ∈ before, g < 65536)
    (hbehind : ∀ g ∈ behind, g < 65536) (hle : before.length + behind.length < 8) :
    readIpv6Addr (utf8 (hexGroups before) ++ 0x3a :: 0x3a :: utf8 (hexGroups behind)) =
      some ((before.map be16 ++ List.replicate (8 - before.length - behind.length) [0, 0] ++
        behind.map be16).flatten, []) := by
  have hfree : (0x2e : UInt8) ∉ 0x3a :: 0x3a :: utf8 (hexGroups behind) := by
    have hgroups : 0x2e ∉ utf8 (hexGroups behind) := by
      cases behind with
      | nil => exact List.not_mem_nil
      | cons g behind =>
        rw [hexGroups_cons]
        simp only [List.mem_append, not_or]
        exact ⟨hexDigits_noDot g,colonGroups_noDot behind⟩
    simpa using hgroups
  have hhead := @readGroups_hexGroups before (0x3a :: 0x3a :: utf8 (hexGroups behind)) hbefore hfree
    (.inr ⟨_,rfl⟩) 8 (by omega)
  have htail := @readGroups_hexGroups behind [] hbehind List.not_mem_nil (.inl rfl)
    (8 - (before.length + 1)) (by omega)
  rw [List.append_nil] at htail
  rw [readIpv6Addr, hhead]
  simp only [List.length_map, Bool.false_eq_true, if_false, readGivenChar, if_true,
    Option.bind_eq_bind, Option.bind_some, htail, Option.pure_def]
  rw [if_neg (by omega)]

/-- An address that ends in an IPv4 address. -/
theorem readIpv6Addr_mapped (ipv4 : Ipv4Addr) :
    readIpv6Addr (utf8 ("::ffff:".toList ++ ipv4.text)) =
      some (List.replicate 10 0 ++ [0xff, 0xff] ++ ipv4.octets, []) := by
  have htext : utf8 ("::ffff:".toList ++ ipv4.text) =
      0x3a :: 0x3a :: (utf8 (Nat.toDigits 16 65535) ++ 0x3a :: utf8 ipv4.text) := by
    rw [utf8_append]
    rfl
  have hcolon : ∀ b ∈ (0x3a :: utf8 ipv4.text).head?, toDigit 16 b = none := by
    intro b hb
    cases hb
    rfl
  have hnoDigit : readIpv4Addr (utf8 (Nat.toDigits 16 65535) ++ 0x3a :: utf8 ipv4.text) = none := by
    refine readIpv4Addr_noDigit fun b hb => ?_
    cases hb
    rfl
  have hread := @readIpv4Addr_text ipv4 [] (fun c hc => by cases hc)
  rw [List.append_nil] at hread
  have hgroups : readGroups 1 6 (0x3a :: utf8 ipv4.text) =
      ([ipv4.octets.take 2, ipv4.octets.drop 2], true, []) := by
    rw [readGroups, if_pos (by decide), readSeparator, if_pos (by decide), readGivenChar, if_pos rfl,
      Option.bind_some, hread]
  have htail : readGroups 0 7 (utf8 (Nat.toDigits 16 65535) ++ 0x3a :: utf8 ipv4.text) =
      ([be16 65535, ipv4.octets.take 2, ipv4.octets.drop 2], true, []) := by
    rw [readGroups_one (by decide) (fun _ => rfl) hcolon hnoDigit, hgroups]
  have hhead : readGroups 0 8 (0x3a :: 0x3a :: (utf8 (Nat.toDigits 16 65535) ++
      0x3a :: utf8 ipv4.text)) = ([], false, _) := readGroups_ends (.inr ⟨_,rfl⟩) 0 8
  rw [htext, readIpv6Addr, hhead]
  simp only [List.length_nil, readGivenChar, if_true, Option.bind_eq_bind, Option.bind_some,
    Option.pure_def]
  rw [if_neg (by decide), if_neg (by decide), htail]
  simp [be16, List.replicate]

/-- The canonical text of an IPv6 address is read back. -/
theorem parseIpv6_text (ip : Ipv6Addr) : parseIpv6 (utf8 ip.text) = some ip.octets := by
  have hread : readIpv6Addr (utf8 ip.text) = some (ip.octets, []) := by
    rw [Ipv6Addr.text]
    cases hmapped : ip.toIpv4Mapped with
    | some ipv4 =>
      rw [Ipv6Addr.toIpv4Mapped] at hmapped
      split at hmapped
      · next hfront =>
        cases hmapped
        dsimp only
        rw [readIpv6Addr_mapped, ← hfront, List.take_append_drop]
      · cases hmapped
    | none =>
      dsimp only
      obtain ⟨before,behind,hsegments,hstart⟩ :=
        @longestZeroes_isZeroes ip.segments [] ⟨0,0⟩ ⟨0,0⟩ ⟨[],[],rfl,rfl⟩ (.inl rfl)
      rw [List.length_nil, List.nil_append] at *
      generalize longestZeroes 0 ⟨0,0⟩ ⟨0,0⟩ ip.segments = zeroes at *
      have hlen := segments_length ip
      have hlt := segments_lt ip
      split
      · next hlong =>
        have htake : ip.segments.take zeroes.start = before := by
          rw [hsegments, ← hstart, List.append_assoc, List.take_left]
        have hdrop : ip.segments.drop (zeroes.start + zeroes.len) = behind := by
          have hfront : zeroes.start + zeroes.len =
              (before ++ List.replicate zeroes.len 0).length := by simp [hstart]
          rw [hsegments, hfront, List.drop_left]
        have hoctets := segments_octets ip
        rw [hsegments] at hlen hlt hoctets
        simp only [List.length_append, List.length_replicate] at hlen
        have hcount : 8 - before.length - behind.length = zeroes.len := by omega
        rw [htake, hdrop, utf8_append, utf8_append, List.append_assoc]
        refine (readIpv6Addr_compressed (fun g hg => hlt g (by simp [hg]))
          (fun g hg => hlt g (by simp [hg])) (by omega)).trans ?_
        rw [hcount, ← hoctets, List.map_append, List.map_append, List.map_replicate]
        rfl
      · have hread := @readGroups_hexGroups ip.segments [] hlt List.not_mem_nil (.inl rfl) 8
          (by omega)
        rw [List.append_nil] at hread
        rw [readIpv6Addr, hread]
        simp only [List.length_map, hlen, if_true, segments_octets]
  rw [parseIpv6, parseWith, hread]

theorem colon_mem_hexGroups {chunk : List Nat} (h : 1 < chunk.length) : ':' ∈ hexGroups chunk := by
  match chunk, h with
  | g :: g' :: chunk, _ =>
    rw [hexGroups, List.map_cons, List.map_cons, List.intercalate_cons_cons]
    simp

theorem Ipv6Addr.colon_mem_text (ip : Ipv6Addr) : ':' ∈ ip.text := by
  rw [Ipv6Addr.text]
  split
  · simp
  · dsimp only
    split
    · simp
    · apply colon_mem_hexGroups
      rw [segments_length]
      decide

/-- Only in brackets an IPv6 address is the host of a socket address. -/
theorem SocketAddr.parse_noBracket {text : Bytes} {address : SocketAddr}
    (htext : text.head? ≠ some 0x5b) (h : SocketAddr.parse text = some address) :
    address.ip.isIpv4 = true := by
  have hv6 : readSocketAddrV6 text = none := by
    have hchar : readGivenChar 0x5b text = none := by
      cases text with
      | nil => rfl
      | cons b bs => exact if_neg fun hb => htext (by rw [hb]; rfl)
    rw [readSocketAddrV6, hchar]
  have hv4 {r : SocketAddr × Bytes} (hr : readSocketAddrV4 text = some r) :
      r.1.ip.isIpv4 = true := by
    unfold readSocketAddrV4 at hr
    split at hr
    · cases hr
    · obtain ⟨port,-,rfl⟩ := Option.map_eq_some_iff.mp hr
      rfl
  rw [SocketAddr.parse, hv6] at h
  split at h
  · next hread => cases h; exact hv4 hread
  · cases h
  · cases h

end AtlasKernel.Lib
