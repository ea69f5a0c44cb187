import AtlasKernel.Lib.Net
import Mathlib.Data.List.Basic

/-! Socket addresses as text, and what the number and address parsers make of decimal
text: what is read is written back, and what is written is read. -/
namespace AtlasKernel.Lib

inductive SocketAddr where
  | v4 (ip : Ipv4Addr) (port : UInt16)
  | v6 (ip : Ipv6Addr) (scopeId : Nat) (port : UInt16)
deriving DecidableEq, Repr

def SocketAddr.new (ip : IpAddr) (port : UInt16) : SocketAddr :=
  match ip with
  | .v4 ip => .v4 ip port
  | .v6 ip => .v6 ip 0 port

def SocketAddr.ip : SocketAddr → IpAddr
  | .v4 ip _ => .v4 ip
  | .v6 ip _ _ => .v6 ip

def SocketAddr.port : SocketAddr → UInt16
  | .v4 _ port => port
  | .v6 _ _ port => port

theorem SocketAddr.ip_new (ip : IpAddr) (port : UInt16) : (SocketAddr.new ip port).ip = ip := by
  cases ip <;> rfl

theorem SocketAddr.port_new (ip : IpAddr) (port : UInt16) : (SocketAddr.new ip port).port = port := by
  cases ip <;> rfl

def readPort (input : Bytes) : Option (UInt16 × Bytes) :=
  ((readGivenChar 0x3a input).bind fun rest => readNumber 10 rest.length 65535 true rest).map
    fun r => (UInt16.ofNat r.1, r.2)

def readScopeId (input : Bytes) : Option (Nat × Bytes) :=
  (readGivenChar 0x25 input).bind fun rest => readNumber 10 rest.length 4294967295 true rest

def readSocketAddrV4 (input : Bytes) : Option (SocketAddr × Bytes) :=
  match h : readIpv4Addr input with
  | none => none
  | some (octets, rest) =>
    (readPort rest).map fun r => (.v4 ⟨octets, readIpv4Addr_length h⟩ r.1, r.2)

def readSocketAddrV6 (input : Bytes) : Option (SocketAddr × Bytes) :=
  match readGivenChar 0x5b input with
  | none => none
  | some input =>
    match h : readIpv6Addr input with
    | none => none
    | some (octets, input) =>
      let (scopeId, input) := (readScopeId input).getD (0, input)
      match readGivenChar 0x5d input with
      | none => none
      | some input =>
        (readPort input).map fun r => (.v6 ⟨octets, readIpv6Addr_length h⟩ scopeId r.1, r.2)

/-- `SocketAddr::from_str` -/
def SocketAddr.parse (text : Bytes) : Option SocketAddr :=
  match readSocketAddrV4 text with
  | some (address, []) => some address
  | some (_, _ :: _) => none
  | none =>
    match readSocketAddrV6 text with
    | some (address, []) => some address
    | _ => none

/-- `Display for SocketAddr` -/
def SocketAddr.text : SocketAddr → List Char
  | .v4 ip port => ip.text ++ ':' :: Nat.toDigits 10 port.toNat
  | .v6 ip scopeId port =>
    '[' :: ip.text ++ (if scopeId = 0 then [] else '%' :: Nat.toDigits 10 scopeId) ++
      ']' :: ':' :: Nat.toDigits 10 port.toNat

/-! ## Numbers -/

theorem toDigit_ten {digit : Nat} {b : UInt8} (h : toDigit 10 b = some digit) :
    digit < 10 ∧ b = UInt8.ofNat (0x30 + digit) := by
  rw [toDigit, Option.filter_eq_some_iff] at h
  obtain ⟨hvalue,hlt⟩ := h
  have hlt' : digit < 10 := by simpa using hlt
  refine ⟨hlt',?_⟩
  split at hvalue
  · next hrange =>
    have hlow : 0x30 ≤ b.toNat := hrange.1
    cases hvalue
    rw [Nat.add_sub_cancel' hlow, UInt8.ofNat_toNat]
  · split at hvalue
    · cases hvalue
      omega
    · split at hvalue
      · cases hvalue
        omega
      · cases hvalue

/-- What was read to the end is read on with what follows. -/
theorem readDigits_append {radix maxDigits bound : Nat} {bs : Bytes} {n count n' count' : Nat}
    (h : readDigits radix maxDigits bound bs n count = some (n', count', [])) (more : Bytes) :
    readDigits radix maxDigits bound (bs ++ more) n count =
      readDigits radix maxDigits bound more n' count' := by
  induction bs generalizing n count with
  | nil =>
    cases h
    rfl
  | cons b bs ih =>
    rw [List.cons_append, readDigits]
    rw [readDigits] at h
    cases hdigit : toDigit radix b with
    | none => simp [hdigit] at h
    | some digit =>
      simp only [hdigit] at h ⊢
      split at h
      · cases h
      · next hbound =>
        rw [if_neg hbound]
        split at h
        · cases h
        · next hcount =>
          rw [if_neg hcount]
          exact ih h

/-- The reading of digits stops where it stopped before, unless a digit follows. -/
theorem readDigits_stop {radix maxDigits bound : Nat} {bs rest more : Bytes}
    {n count n' count' : Nat} (hmore : ∀ b ∈ more.head?, toDigit radix b = none)
    (h : readDigits radix maxDigits bound bs n count = some (n', count', rest)) :
    readDigits radix maxDigits bound (bs ++ more) n count = some (n', count', rest ++ more) := by
  induction bs generalizing n count with
  | nil =>
    cases h
    cases more with
    | nil => rfl
    | cons b more => rw [List.nil_append, readDigits, hmore b rfl]
  | cons b bs ih =>
    rw [List.cons_append, readDigits]
    rw [readDigits] at h
    cases hdigit : toDigit radix b with
    | none =>
      simp only [hdigit] at h ⊢
      cases h
      rfl
    | some digit =>
      simp only [hdigit] at h ⊢
      split at h
      · cases h
      · next hbound =>
        rw [if_neg hbound]
        split at h
        · cases h
        · next hcount =>
          rw [if_neg hcount]
          exact ih h

theorem readNumber_stop {radix maxDigits bound : Nat} {allowZero : Bool} {bs rest more : Bytes}
    {n : Nat} (hmore : ∀ b ∈ more.head?, toDigit radix b = none)
    (h : readNumber radix maxDigits bound allowZero bs = some (n, rest)) :
    readNumber radix maxDigits bound allowZero (bs ++ more) = some (n, rest ++ more) := by
  cases bs with
  | nil => cases h
  | cons b bs =>
    unfold readNumber at h ⊢
    cases hdigits : readDigits radix maxDigits bound (b :: bs) 0 0 with
    | none =>
      rw [hdigits] at h
      cases h
    | some r =>
      obtain ⟨result,count,rest'⟩ := r
      rw [hdigits] at h
      rw [readDigits_stop hmore hdigits]
      simp only at h ⊢
      split at h
      · cases h
      · next hcount =>
        rw [if_neg hcount]
        split at h
        · cases h
        · next hzero =>
          rw [if_neg (by simpa using hzero)]
          cases h
          rfl

theorem utf8_digitChar : ∀ d < 10, utf8 [Nat.digitChar d] = [UInt8.ofNat (0x30 + d)] ∧
    toDigit 10 (UInt8.ofNat (0x30 + d)) = some d := by decide

theorem utf8_hexChar : ∀ d < 16,
    utf8 [Nat.digitChar d] = [UInt8.ofNat (Nat.digitChar d).toNat] ∧
      toDigit 16 (UInt8.ofNat (Nat.digitChar d).toNat) = some d := by decide

/-- A digit is read under every radix that has it. -/
theorem toDigit_of_lt {radix radix' digit : Nat} {b : UInt8} (h : toDigit radix b = some digit)
    (hlt : digit < radix') : toDigit radix' b = some digit := by
  rw [toDigit, Option.filter_eq_some_iff] at h ⊢
  exact ⟨h.1,by simpa using hlt⟩

theorem readDigits_toDigits {radix n maxDigits bound : Nat} (hradix : 1 < radix)
    (hradix' : radix ≤ 16) (hbound : n ≤ bound)
    (hcount : (Nat.toDigits radix n).length ≤ maxDigits) :
    readDigits radix maxDigits bound (utf8 (Nat.toDigits radix n)) 0 0 =
      some (n, (Nat.toDigits radix n).length, []) := by
  induction n using Nat.strongRecOn with
  | ind n ih =>
    by_cases hn : n < radix
    · obtain ⟨hbyte,hhex⟩ := utf8_hexChar n (by omega)
      rw [Nat.toDigits_of_lt_base hn] at hcount ⊢
      rw [hbyte, readDigits, toDigit_of_lt hhex hn]
      simp only [List.length_singleton] at hcount ⊢
      rw [if_neg (by omega), if_neg (by omega)]
      simp [readDigits]
    · have hlow : n % radix < radix := Nat.mod_lt _ (by omega)
      have hfront : n / radix < n := Nat.div_lt_self (by omega) hradix
      have hle : n / radix ≤ n := Nat.div_le_self ..
      obtain ⟨hbyte,hhex⟩ := utf8_hexChar (n % radix) (by omega)
      rw [Nat.toDigits_of_base_le hradix (by omega), List.length_append] at hcount
      rw [Nat.toDigits_of_base_le hradix (by omega), utf8_append, hbyte,
        readDigits_append (ih (n / radix) hfront (by omega) (by omega)), readDigits,
        toDigit_of_lt hhex hlow]
      simp only [List.length_singleton, List.length_append] at hcount ⊢
      rw [Nat.div_add_mod', if_neg (by omega), if_neg (by omega)]
      rfl

/-- Only zero begins with a zero. -/
theorem toDigits_head {radix n : Nat} (hradix : 1 < radix) (hradix' : radix ≤ 16)
    (h : 1 < (Nat.toDigits radix n).length) :
    (utf8 (Nat.toDigits radix n)).head? ≠ some 0x30 := by
  induction n using Nat.strongRecOn with
  | ind n ih =>
    by_cases hn : n < radix
    · rw [Nat.toDigits_of_lt_base hn, List.length_singleton] at h
      omega
    · have hfront : n / radix < n := Nat.div_lt_self (by omega) hradix
      have hpos : 0 < n / radix := Nat.div_pos (by omega) (by omega)
      rw [Nat.toDigits_of_base_le hradix (by omega), utf8_append]
      by_cases hone : n / radix < radix
      · have hdigit : ∀ d < 16, 0 < d → (utf8 [Nat.digitChar d]).head? ≠ some 0x30 ∧
            utf8 [Nat.digitChar d] ≠ [] := by decide
        obtain ⟨hhead,hne⟩ := hdigit (n / radix) (by omega) hpos
        rw [Nat.toDigits_of_lt_base hone, List.head?_append_of_ne_nil _ hne]
        exact hhead
      · have hlong : 1 < (Nat.toDigits radix (n / radix)).length := by
          have hpos' := @Nat.length_toDigits_pos radix (n / radix / radix)
          rw [Nat.toDigits_of_base_le hradix (by omega), List.length_append, List.length_singleton]
          omega
        have hne : utf8 (Nat.toDigits radix (n / radix)) ≠ [] := by
          intro hnil
          have hle := length_le_utf8 (Nat.toDigits radix (n / radix))
          rw [hnil, List.length_nil] at hle
          omega
        rw [List.head?_append_of_ne_nil _ hne]
        exact ih (n / radix) hfront hlong

theorem readNumber_toDigits {radix n maxDigits bound : Nat} (allowZero : Bool)
    (hradix : 1 < radix) (hradix' : radix ≤ 16) (hbound : n ≤ bound)
    (hcount : (Nat.toDigits radix n).length ≤ maxDigits) :
    readNumber radix maxDigits bound allowZero (utf8 (Nat.toDigits radix n)) = some (n, []) := by
  have hpos := @Nat.length_toDigits_pos radix n
  have hzero : ¬ ((utf8 (Nat.toDigits radix n)).head? = some 0x30 ∧
      1 < (Nat.toDigits radix n).length) :=
    fun h => toDigits_head hradix hradix' h.2 h.1
  rw [readNumber, readDigits_toDigits hradix hradix' hbound hcount]
  simp only [if_neg (Nat.ne_of_gt hpos)]
  rw [if_neg fun h => hzero h.2]

/-- After a first digit other than zero, the digits that are read are the decimal text of
the number. -/
theorem readDigits_spelled {maxDigits bound n count n' count' : Nat} {bs rest : Bytes}
    (hn : 0 < n) (h : readDigits 10 maxDigits bound bs n count = some (n', count', rest)) :
    ∃ ds, bs = ds ++ rest ∧ utf8 (Nat.toDigits 10 n') = utf8 (Nat.toDigits 10 n) ++ ds := by
  induction bs generalizing n count with
  | nil =>
    cases h
    exact ⟨[],rfl,(List.append_nil _).symm⟩
  | cons b bs ih =>
    rw [readDigits] at h
    cases hdigit : toDigit 10 b with
    | none =>
      simp only [hdigit] at h
      cases h
      exact ⟨[],rfl,(List.append_nil _).symm⟩
    | some digit =>
      obtain ⟨hlt,rfl⟩ := toDigit_ten hdigit
      simp only [hdigit] at h
      split at h
      · cases h
      · split at h
        · cases h
        · obtain ⟨ds,hds,htext⟩ := ih (by omega) h
          have hsnoc : Nat.toDigits 10 (n*10+digit) = Nat.toDigits 10 n ++ [Nat.digitChar digit] := by
            rw [Nat.mul_comm, ← Nat.toDigits_append_toDigits (by decide) hn hlt,
              Nat.toDigits_of_lt_base hlt]
          refine ⟨UInt8.ofNat (0x30+digit) :: ds,by rw [hds]; rfl,?_⟩
          rw [htext, hsnoc, utf8_append, (utf8_digitChar digit hlt).1, List.append_assoc]
          rfl

theorem readDigits_count {radix maxDigits bound n count n' count' : Nat} {bs rest : Bytes}
    (h : readDigits radix maxDigits bound bs n count = some (n', count', rest)) :
    count ≤ count' ∧ (count' = count → n' = n ∧ rest = bs) := by
  induction bs generalizing n count with
  | nil =>
    cases h
    exact ⟨Nat.le_refl _,fun _ => ⟨rfl,rfl⟩⟩
  | cons b bs ih =>
    rw [readDigits] at h
    split at h
    · cases h
      exact ⟨Nat.le_refl _,fun _ => ⟨rfl,rfl⟩⟩
    · split at h
      · cases h
      · split at h
        · cases h
        · have hle := (ih h).1
          exact ⟨by omega,fun heq => by omega⟩

/-- Without leading zeros a number has one spelling. -/
theorem readNumber_spelled {maxDigits bound n : Nat} {bs rest : Bytes}
    (h : readNumber 10 maxDigits bound false bs = some (n, rest)) :
    bs = utf8 (Nat.toDigits 10 n) ++ rest := by
  cases bs with
  | nil => cases h
  | cons b bs =>
    unfold readNumber at h
    cases hdigits : readDigits 10 maxDigits bound (b :: bs) 0 0 with
    | none =>
      rw [hdigits] at h
      cases h
    | some r =>
      obtain ⟨result,count,rest'⟩ := r
      rw [hdigits] at h
      simp only at h
      split at h
      · cases h
      · next hcount =>
        split at h
        · cases h
        · next hzero =>
          cases h
          rw [readDigits] at hdigits
          cases hdigit : toDigit 10 b with
          | none =>
            simp only [hdigit] at hdigits
            cases hdigits
            exact absurd rfl hcount
          | some digit =>
            obtain ⟨hlt,rfl⟩ := toDigit_ten hdigit
            simp only [hdigit, Nat.zero_mul, Nat.zero_add] at hdigits
            split at hdigits
            · cases hdigits
            · split at hdigits
              · cases hdigits
              · obtain rfl | hpos := Nat.eq_zero_or_pos digit
                · -- a zero stands alone
                  obtain ⟨hle,hsame⟩ := readDigits_count hdigits
                  have hone : count = 1 := by
                    by_contra hne
                    exact hzero ⟨rfl,rfl,by omega⟩
                  obtain ⟨rfl,rfl⟩ := hsame hone
                  rfl
                · obtain ⟨ds,hds,htext⟩ := readDigits_spelled hpos hdigits
                  rw [htext, Nat.toDigits_of_lt_base hlt, (utf8_digitChar digit hlt).1, hds]
                  rfl

/-! ## IPv4 addresses -/

theorem readGivenChar_some {c : UInt8} {input rest : Bytes} (h : readGivenChar c input = some rest) :
    input = c :: rest := by
  cases input with
  | nil => cases h
  | cons b bs =>
    rw [readGivenChar] at h
    split at h
    · next hb => cases h; rw [hb]
    · cases h

theorem readSeparator_some {β : Type*} {sep : UInt8} {index : Nat}
    {inner : Bytes → Option (β × Bytes)} {input rest : Bytes} {value : β} (hindex : 0 < index)
    (h : readSeparator sep index inner input = some (value, rest)) :
    ∃ behind, input = sep :: behind ∧ inner behind = some (value, rest) := by
  rw [readSeparator, if_pos hindex] at h
  obtain ⟨behind,hsep,hinner⟩ := Option.bind_eq_some_iff.mp h
  exact ⟨behind,readGivenChar_some hsep,hinner⟩

/-- An address is read from four numbers, each in its one spelling. -/
theorem readIpv4Addr_some {input octets rest : Bytes}
    (h : readIpv4Addr input = some (octets, rest)) :
    ∃ a b c d r₁ r₂ r₃ : _, octets = [UInt8.ofNat a, UInt8.ofNat b, UInt8.ofNat c, UInt8.ofNat d] ∧
      readNumber 10 3 255 false input = some (a, 0x2e :: r₁) ∧
      readNumber 10 3 255 false r₁ = some (b, 0x2e :: r₂) ∧
      readNumber 10 3 255 false r₂ = some (c, 0x2e :: r₃) ∧
      readNumber 10 3 255 false r₃ = some (d, rest) := by
  simp only [readIpv4Addr, Option.bind_eq_bind, Option.bind_eq_some_iff, Option.pure_def,
    Option.some.injEq, Prod.mk.injEq, Prod.exists] at h
  obtain ⟨a,r₁,ha,b,r₂,hb,c,r₃,hc,d,r₄,hd,rfl,rfl⟩ := h
  obtain ⟨s₁,rfl,hb⟩ := readSeparator_some (by decide) hb
  obtain ⟨s₂,rfl,hc⟩ := readSeparator_some (by decide) hc
  obtain ⟨s₃,rfl,hd⟩ := readSeparator_some (by decide) hd
  exact ⟨a,b,c,d,s₁,s₂,s₃,rfl,ha,hb,hc,hd⟩

theorem readIpv4Addr_of {input rest r₁ r₂ r₃ : Bytes} {a b c d : Nat}
    (ha : readNumber 10 3 255 false input = some (a, 0x2e :: r₁))
    (hb : readNumber 10 3 255 false r₁ = some (b, 0x2e :: r₂))
    (hc : readNumber 10 3 255 false r₂ = some (c, 0x2e :: r₃))
    (hd : readNumber 10 3 255 false r₃ = some (d, rest)) :
    readIpv4Addr input =
      some ([UInt8.ofNat a, UInt8.ofNat b, UInt8.ofNat c, UInt8.ofNat d], rest) := by
  simp [readIpv4Addr, readSeparator, readGivenChar, ha, hb, hc, hd]

theorem readIpv4Addr_stop {input octets rest more : Bytes}
    (hmore : ∀ b ∈ more.head?, toDigit 10 b = none)
    (h : readIpv4Addr input = some (octets, rest)) :
    readIpv4Addr (input ++ more) = some (octets, rest ++ more) := by
  obtain ⟨a,b,c,d,r₁,r₂,r₃,rfl,ha,hb,hc,hd⟩ := readIpv4Addr_some h
  exact readIpv4Addr_of (readNumber_stop hmore ha) (readNumber_stop hmore hb)
    (readNumber_stop hmore hc) (readNumber_stop hmore hd)

theorem readDigits_le {radix maxDigits bound n count n' count' : Nat} {bs rest : Bytes}
    (hn : n ≤ bound)
    (h : readDigits radix maxDigits bound bs n count = some (n', count', rest)) : n' ≤ bound := by
  induction bs generalizing n count with
  | nil =>
    cases h
    exact hn
  | cons b bs ih =>
    rw [readDigits] at h
    split at h
    · cases h
      exact hn
    · split at h
      · cases h
      · split at h
        · cases h
        · exact ih (by omega) h

theorem readNumber_le {radix maxDigits bound n : Nat} {allowZero : Bool} {bs rest : Bytes}
    (h : readNumber radix maxDigits bound allowZero bs = some (n, rest)) : n ≤ bound := by
  unfold readNumber at h
  split at h
  · cases h
  · next hdigits =>
    split at h
    · cases h
    · split at h
      · cases h
      · cases h
        exact readDigits_le (Nat.zero_le _) hdigits

theorem parseIpv4_read {text octets : Bytes} (h : parseIpv4 text = some octets) :
    readIpv4Addr text = some (octets, []) := by
  rw [parseIpv4] at h
  split at h
  · cases h
  · exact parseWith_eq_some h

/-- An address in dotted decimal is spelled as it would be written. -/
theorem parseIpv4_spelled {text octets : Bytes} (h : parseIpv4 text = some octets) :
    text = utf8 (Ipv4Addr.text ⟨octets, parseIpv4_length h⟩) := by
  obtain ⟨a,b,c,d,r₁,r₂,r₃,rfl,ha,hb,hc,hd⟩ := readIpv4Addr_some (parseIpv4_read h)
  have hnat {n : Nat} (hn : n ≤ 255) : (UInt8.ofNat n).toNat = n := by
    rw [UInt8.toNat_ofNat', Nat.mod_eq_of_lt (Nat.lt_succ_of_le hn)]
  have htext := readNumber_spelled ha
  rw [readNumber_spelled hb, readNumber_spelled hc, readNumber_spelled hd] at htext
  refine htext.trans ?_
  simp only [Ipv4Addr.text, List.map_cons, List.map_nil, hnat (readNumber_le ha),
    hnat (readNumber_le hb), hnat (readNumber_le hc), hnat (readNumber_le hd), List.intercalate,
    List.intersperse, List.flatten_cons, List.flatten_nil, List.append_nil, utf8_append]
  rfl

theorem readSocketAddrV4_some {input octets rest rest' : Bytes} {port : UInt16}
    (h : readIpv4Addr input = some (octets, rest)) (hport : readPort rest = some (port, rest')) :
    readSocketAddrV4 input = some (.v4 ⟨octets, readIpv4Addr_length h⟩ port, rest') := by
  unfold readSocketAddrV4
  split
  · next hnone => cases h.symm.trans hnone
  · next octets' rest'' hsome =>
    cases h.symm.trans hsome
    rw [hport]
    rfl

theorem readPort_toDigits (port : UInt16) :
    readPort (0x3a :: utf8 (Nat.toDigits 10 port.toNat)) = some (port, []) := by
  have hport : port.toNat ≤ 65535 := Nat.le_of_lt_succ port.toNat_lt
  rw [readPort, readGivenChar, if_pos rfl, Option.bind_some,
    readNumber_toDigits true (by decide) (by decide) hport (length_le_utf8 _), Option.map_some, UInt16.ofNat_toNat]

/-- Behind an IPv4 address, a colon and a port make a socket address. -/
theorem SocketAddr.parse_ipv4 {text octets : Bytes} (h : parseIpv4 text = some octets)
    (port : UInt16) :
    SocketAddr.parse (text ++ 0x3a :: utf8 (Nat.toDigits 10 port.toNat)) =
      some (.v4 ⟨octets, parseIpv4_length h⟩ port) := by
  have hcolon : ∀ b ∈ (0x3a :: utf8 (Nat.toDigits 10 port.toNat)).head?, toDigit 10 b = none := by
    intro b hb
    cases hb
    decide
  rw [SocketAddr.parse, readSocketAddrV4_some (readIpv4Addr_stop hcolon (parseIpv4_read h))
    (readPort_toDigits port)]

/-! ## How long an address can be -/

theorem readDigits_short {radix maxDigits bound n count n' count' : Nat} {bs rest : Bytes}
    (hcount : count ≤ maxDigits)
    (h : readDigits radix maxDigits bound bs n count = some (n', count', rest)) :
    bs.length + count ≤ rest.length + maxDigits := by
  induction bs generalizing n count with
  | nil =>
    cases h
    exact Nat.add_le_add_left hcount _
  | cons b bs ih =>
    rw [readDigits] at h
    split at h
    · cases h
      exact Nat.add_le_add_left hcount _
    · split at h
      · cases h
      · split at h
        · cases h
        · have hrest := ih (by omega) h
          rw [List.length_cons]
          omega

theorem readNumber_short {radix maxDigits bound n : Nat} {allowZero : Bool} {bs rest : Bytes}
    (h : readNumber radix maxDigits bound allowZero bs = some (n, rest)) :
    bs.length ≤ rest.length + maxDigits := by
  unfold readNumber at h
  split at h
  · cases h
  · next hdigits =>
    split at h
    · cases h
    · split at h
      · cases h
      · cases h
        exact readDigits_short (Nat.zero_le _) hdigits

theorem readIpv4Addr_short {input octets rest : Bytes}
    (h : readIpv4Addr input = some (octets, rest)) : input.length ≤ rest.length + 15 := by
  obtain ⟨a,b,c,d,r₁,r₂,r₃,_,ha,hb,hc,hd⟩ := readIpv4Addr_some h
  have h₁ := readNumber_short ha
  have h₂ := readNumber_short hb
  have h₃ := readNumber_short hc
  have h₄ := readNumber_short hd
  rw [List.length_cons] at h₁ h₂ h₃
  omega

theorem readSeparator_short {β : Type*} {sep : UInt8} {index n : Nat}
    {inner : Bytes → Option (β × Bytes)} {input rest : Bytes} {value : β}
    (hinner : ∀ {input rest value}, inner input = some (value, rest) →
      input.length ≤ rest.length + n)
    (h : readSeparator sep index inner input = some (value, rest)) :
    input.length ≤ rest.length + (n + 1) := by
  obtain rfl | hpos := Nat.eq_zero_or_pos index
  · have hread := hinner h
    omega
  · obtain ⟨behind,rfl,hread⟩ := readSeparator_some hpos h
    have hread' := hinner hread
    rw [List.length_cons]
    omega

theorem readGroups_short (index left : Nat) (input : Bytes) :
    input.length ≤ (readGroups index left input).2.2.length + 16 * left := by
  induction left generalizing index input with
  | zero => exact Nat.le_add_right _ _
  | succ left ih =>
    rw [readGroups]
    split
    · next octets rest hipv4 =>
      split at hipv4
      · have hread := readSeparator_short readIpv4Addr_short hipv4
        dsimp only
        omega
      · cases hipv4
    · split
      · exact Nat.le_add_right _ _
      · next group rest hgroup =>
        have hread := readSeparator_short readNumber_short hgroup
        have hrest := ih (index+1) rest
        dsimp only
        omega

theorem readIpv6Addr_short {input octets rest : Bytes}
    (h : readIpv6Addr input = some (octets, rest)) : input.length ≤ rest.length + 242 := by
  rw [readIpv6Addr] at h
  have hhead := readGroups_short 0 8 input
  generalize readGroups 0 8 input = r at h hhead
  obtain ⟨head,headIpv4,next⟩ := r
  simp only at h hhead
  split at h
  · cases h
    omega
  · split at h
    · cases h
    · simp only [Option.bind_eq_bind, Option.bind_eq_some_iff, Option.pure_def, Option.some.injEq,
        Prod.mk.injEq] at h
      obtain ⟨next₁,hcolon,next₂,hcolon',-,hrest⟩ := h
      have htail := readGroups_short 0 (8 - (head.length + 1)) next₂
      rw [hrest] at htail
      rw [readGivenChar_some hcolon, readGivenChar_some hcolon'] at hhead
      simp only [List.length_cons] at hhead
      omega

/-- The text of an IPv6 address fits where a name fits. -/
theorem parseIpv6_short {text octets : Bytes} (h : parseIpv6 text = some octets) :
    text.length ≤ 255 := by
  have hread := readIpv6Addr_short (parseWith_eq_some h)
  rw [List.length_nil] at hread
  omega

theorem parseIpv4_short {text octets : Bytes} (h : parseIpv4 text = some octets) :
    text.length ≤ 255 := by
  have hread := readIpv4Addr_short (parseIpv4_read h)
  rw [List.length_nil] at hread
  omega

/-- No IPv6 address begins with a bracket. -/
theorem parseIpv6_bracket (bs : Bytes) : parseIpv6 (0x5b :: bs) = none := rfl

end AtlasKernel.Lib
