import AtlasKernel.Lib.IpText

/-! The text of an address: which bytes the parsers take, and that the canonical text of either
kind of address is read back. -/
namespace AtlasKernel.Lib

/-- The bytes that addresses are spelled with. -/
def AddressByte (b : UInt8) : Prop := b = 0x2e ∨ b = 0x3a ∨ (toDigit 16 b).isSome

instance (b : UInt8) : Decidable (AddressByte b) := inferInstanceAs (Decidable (_ ∨ _ ∨ _))

/-- What was taken from the front of `input`, with `rest` left, are such bytes. -/
def Consumed (input rest : Bytes) : Prop := ∃ front, input = front ++ rest ∧ ∀ b ∈ front, AddressByte b

theorem Consumed.refl (input : Bytes) : Consumed input input :=
  ⟨[],rfl,fun _ hb => absurd hb List.not_mem_nil⟩

theorem Consumed.cons {b : UInt8} {input rest : Bytes} (hb : AddressByte b)
    (h : Consumed input rest) : Consumed (b :: input) rest := by
  obtain ⟨front,rfl,hfront⟩ := h
  refine ⟨b :: front,rfl,?_⟩
  simp only [List.mem_cons, forall_eq_or_imp]
  exact ⟨hb,hfront⟩

theorem Consumed.trans {input rest rest' : Bytes} (h : Consumed input rest)
    (h' : Consumed rest rest') : Consumed input rest' := by
  obtain ⟨front,rfl,hfront⟩ := h
  obtain ⟨front',rfl,hfront'⟩ := h'
  refine ⟨front ++ front',(List.append_assoc ..).symm,fun b hb => ?_⟩
  obtain hb | hb := List.mem_append.mp hb
  · exact hfront b hb
  · exact hfront' b hb

theorem addressByte_digit {radix digit : Nat} {b : UInt8} (hradix : radix ≤ 16)
    (h : toDigit radix b = some digit) : AddressByte b := by
  have hlt : digit < radix := by
    rw [toDigit, Option.filter_eq_some_iff] at h
    simpa using h.2
  rw [AddressByte, toDigit_of_lt h (Nat.lt_of_lt_of_le hlt hradix)]
  exact .inr (.inr rfl)

theorem readDigits_consumed {radix maxDigits bound n count n' count' : Nat} {bs rest : Bytes}
    (hradix : radix ≤ 16) (h : readDigits radix maxDigits bound bs n count = some (n', count', rest)) :
    Consumed bs rest := by
  induction bs generalizing n count with
  | nil =>
    cases h
    exact Consumed.refl []
  | cons b bs ih =>
    rw [readDigits] at h
    split at h
    case h_1 =>
      cases h
      exact Consumed.refl _
    case h_2 digit hdigit =>
      split at h
      case isTrue => cases h
      case isFalse =>
        split at h
        case isTrue => cases h
        case isFalse => exact (ih h).cons (addressByte_digit hradix hdigit)

theorem readNumber_consumed {radix maxDigits bound n : Nat} {allowZero : Bool} {bs rest : Bytes}
    (hradix : radix ≤ 16) (h : readNumber radix maxDigits bound allowZero bs = some (n, rest)) :
    Consumed bs rest := by
  unfold readNumber at h
  split at h
  case h_1 => cases h
  case h_2 hdigits =>
    split at h
    case isTrue => cases h
    case isFalse =>
      split at h
      case isTrue => cases h
      case isFalse =>
        cases h
        exact readDigits_consumed hradix hdigits

theorem readIpv4Addr_consumed {input octets rest : Bytes}
    (h : readIpv4Addr input = some (octets, rest)) : Consumed input rest := by
  obtain ⟨a,b,c,d,r₁,r₂,r₃,-,ha,hb,hc,hd⟩ := readIpv4Addr_some h
  have hdot {r : Bytes} : Consumed (0x2e :: r) r := (Consumed.refl r).cons (by decide)
  have hfirst := (readNumber_consumed (by decide) ha).trans hdot
  have hsecond := (readNumber_consumed (by decide) hb).trans hdot
  have hthird := (readNumber_consumed (by decide) hc).trans hdot
  exact hfirst.trans (hsecond.trans (hthird.trans (readNumber_consumed (by decide) hd)))

theorem readSeparator_consumed {β : Type*} {index : Nat} {inner : Bytes → Option (β × Bytes)}
    {input rest : Bytes} {value : β}
    (hinner : ∀ {input rest value}, inner input = some (value, rest) → Consumed input rest)
    (h : readSeparator 0x3a index inner input = some (value, rest)) : Consumed input rest := by
  obtain rfl | hpos := Nat.eq_zero_or_pos index
  · exact hinner h
  · obtain ⟨behind,rfl,hread⟩ := readSeparator_some hpos h
    exact (hinner hread).cons (by decide)

theorem readGroups_consumed (index left : Nat) (input : Bytes) :
    Consumed input (readGroups index left input).2.2 := by
  induction left generalizing index input with
  | zero => exact Consumed.refl input
  | succ left ih =>
    rw [readGroups]
    split
    case h_1 octets rest hipv4 =>
      split at hipv4
      case isTrue => exact readSeparator_consumed readIpv4Addr_consumed hipv4
      case isFalse => cases hipv4
    case h_2 =>
      split
      case h_1 => exact Consumed.refl input
      case h_2 group rest hgroup =>
        have hfirst := readSeparator_consumed (readNumber_consumed (by decide)) hgroup
        exact hfirst.trans (ih (index + 1) rest)

theorem readIpv6Addr_consumed {input octets rest : Bytes}
    (h : readIpv6Addr input = some (octets, rest)) : Consumed input rest := by
  rw [readIpv6Addr] at h
  have hhead := readGroups_consumed 0 8 input
  generalize readGroups 0 8 input = r at h hhead
  obtain ⟨head,headIpv4,next⟩ := r
  simp only at h hhead
  split at h
  case isTrue =>
    cases h
    exact hhead
  case isFalse =>
    split at h
    case isTrue => cases h
    case isFalse =>
      simp only [Option.bind_eq_bind, Option.bind_eq_some_iff, Option.pure_def, Option.some.injEq,
        Prod.mk.injEq] at h
      obtain ⟨next₁,hcolon,next₂,hcolon',-,hrest⟩ := h
      have htail := readGroups_consumed 0 (8 - (head.length + 1)) next₂
      rw [hrest] at htail
      rw [readGivenChar_some hcolon, readGivenChar_some hcolon'] at hhead
      exact hhead.trans ((htail.cons (by decide)).cons (by decide))

/-! ## Either kind -/

theorem IpAddr.parse_ipv4 {text octets : Bytes} (h : readIpv4Addr text = some (octets, [])) :
    IpAddr.parse text = some (.v4 ⟨octets, readIpv4Addr_length h⟩) := by
  unfold IpAddr.parse
  split
  case h_1 hread => cases h.symm.trans hread; rfl
  case h_2 hread => cases h.symm.trans hread
  case h_3 hread => cases h.symm.trans hread

theorem IpAddr.parse_ipv6 {text : Bytes} (h : readIpv4Addr text = none) :
    IpAddr.parse text = (Ipv6Addr.parse text).map .v6 := by
  unfold IpAddr.parse
  split
  case h_1 hread => cases h.symm.trans hread
  case h_2 hread => cases h.symm.trans hread
  case h_3 => rfl

theorem IpAddr.parse_consumed {text : Bytes} {ip : IpAddr} (h : IpAddr.parse text = some ip) :
    Consumed text [] := by
  unfold IpAddr.parse at h
  split at h
  case h_1 hread => exact readIpv4Addr_consumed hread
  case h_2 => cases h
  case h_3 =>
    obtain ⟨ipv6,hipv6,-⟩ := Option.map_eq_some_iff.mp h
    cases hparse : parseIpv6 text with
    | none =>
      rw [Ipv6Addr.parse_none hparse] at hipv6
      cases hipv6
    | some octets => exact readIpv6Addr_consumed (parseWith_eq_some hparse)

theorem IpAddr.parse_bytes {text : Bytes} {ip : IpAddr} (h : IpAddr.parse text = some ip) :
    ∀ b ∈ text, AddressByte b := by
  obtain ⟨front,rfl,hfront⟩ := IpAddr.parse_consumed h
  rw [List.append_nil]
  exact hfront

theorem Ipv6Addr.readIpv4Addr_text (ip : Ipv6Addr) : readIpv4Addr (utf8 ip.text) = none := by
  rw [Ipv6Addr.text]
  split
  case h_1 ipv4 _ =>
    refine readIpv4Addr_noDigit fun b hb => ?_
    rw [utf8_append] at hb
    cases hb
    rfl
  case h_2 =>
    have hgroups : ∀ chunk, 0x2e ∉ utf8 (hexGroups chunk) := by
      intro chunk
      cases chunk with
      | nil => exact List.not_mem_nil
      | cons g chunk =>
        rw [hexGroups_cons, List.mem_append]
        rintro (hdigit | hcolon)
        · exact hexDigits_noDot g hdigit
        · exact colonGroups_noDot chunk hcolon
    refine readIpv4Addr_noDot ?_
    dsimp only
    split
    case isTrue =>
      rw [utf8_append, utf8_append, List.mem_append, List.mem_append]
      rintro ((hbefore | hcolons) | hbehind)
      · exact hgroups _ hbefore
      · exact absurd hcolons (by decide)
      · exact hgroups _ hbehind
    case isFalse => exact hgroups _

/-- The canonical text of an address is read back as the address. -/
theorem IpAddr.parse_text (ip : IpAddr) : IpAddr.parse (utf8 ip.text) = some ip := by
  cases ip with
  | v4 ip =>
    have hread := @readIpv4Addr_text ip [] (fun c hc => by cases hc)
    rw [List.append_nil] at hread
    exact IpAddr.parse_ipv4 hread
  | v6 ip =>
    refine (IpAddr.parse_ipv6 ip.readIpv4Addr_text).trans ?_
    rw [Ipv6Addr.parse_some (parseIpv6_text ip)]
    rfl

/-! ## Texts of two addresses -/

theorem IpAddr.notMem_text {c : Char} (hascii : c.toNat < 128)
    (hc : ¬ AddressByte (UInt8.ofNat c.toNat)) (ip : IpAddr) : c ∉ ip.text := by
  intro hmem
  have hbyte : UInt8.ofNat c.toNat ∈ utf8 ip.text :=
    List.mem_flatMap.mpr ⟨c,hmem,by rw [utf8EncodeChar_ascii hascii]; exact List.mem_singleton.mpr rfl⟩
  exact hc (IpAddr.parse_bytes (IpAddr.parse_text ip) _ hbyte)

theorem IpAddr.text_inj {ip ip' : IpAddr} (h : ip.text = ip'.text) : ip = ip' := by
  have hparse := IpAddr.parse_text ip
  rw [h, IpAddr.parse_text ip'] at hparse
  exact (Option.some.inj hparse).symm

theorem toDigits_inj {n m : Nat} (h : Nat.toDigits 10 n = Nat.toDigits 10 m) : n = m := by
  have hparse := parseUnsigned_toDigits (Nat.le_add_right n m)
  rw [h, parseUnsigned_toDigits (Nat.le_add_left m n)] at hparse
  exact (Option.some.inj hparse).symm

theorem SocketAddr.notMem_text {c : Char} (hascii : c.toNat < 128) (hdigit : c.isDigit = false)
    (hc : ¬ AddressByte (UInt8.ofNat c.toNat)) (hplain : c ∉ "[]%:".toList) (address : SocketAddr) :
    c ∉ address.text := by
  have hip := fun ip => IpAddr.notMem_text hascii hc ip
  simp only [String.reduceToList, List.mem_cons, List.not_mem_nil, or_false, not_or] at hplain
  cases address with
  | v4 ip port =>
    have hv4 : c ∉ ip.text := hip (.v4 ip)
    simp [SocketAddr.text, hv4, notMem_digits hdigit, hplain]
  | v6 ip scopeId port =>
    have hv6 : c ∉ ip.text := hip (.v6 ip)
    rw [SocketAddr.text]
    split_ifs <;> simp [hv6, notMem_digits hdigit, hplain]

/-- The part in brackets, where a scope that is zero is not written. -/
theorem scopedText_inj {ip ip' : Ipv6Addr} {scopeId scopeId' : Nat}
    (h : ip.text ++ (if scopeId = 0 then [] else '%' :: Nat.toDigits 10 scopeId) =
      ip'.text ++ (if scopeId' = 0 then [] else '%' :: Nat.toDigits 10 scopeId')) :
    ip.text = ip'.text ∧ scopeId = scopeId' := by
  have hplain : ∀ ip : Ipv6Addr, '%' ∉ ip.text := fun ip =>
    IpAddr.notMem_text (by decide) (by decide) (.v6 ip)
  split_ifs at h with hzero hzero' hzero'
  · rw [List.append_nil, List.append_nil] at h
    exact ⟨h,hzero.trans hzero'.symm⟩
  · refine absurd ?_ (hplain ip)
    rw [← List.append_nil ip.text, h]
    simp
  · refine absurd ?_ (hplain ip')
    rw [← List.append_nil ip'.text, ← h]
    simp
  · obtain ⟨htext,hdigits⟩ := until_eq (hplain ip) (hplain ip') h
    exact ⟨htext,toDigits_inj hdigits⟩

theorem SocketAddr.text_inj {address address' : SocketAddr} (h : address.text = address'.text) :
    address = address' := by
  have hcolon : ∀ n, ':' ∉ Nat.toDigits 10 n := fun n => notMem_digits (by decide) n
  have hbracket : ∀ (ip : Ipv4Addr) (port : UInt16), '[' ∉ (SocketAddr.v4 ip port).text := by
    intro ip port
    have hip : '[' ∉ ip.text := IpAddr.notMem_text (by decide) (by decide) (.v4 ip)
    have hport : '[' ∉ Nat.toDigits 10 port.toNat := notMem_digits (by decide) _
    simp [SocketAddr.text, hip, hport]
  cases address with
  | v4 ip port =>
    cases address' with
    | v4 ip' port' =>
      obtain ⟨htext,hport⟩ := after_eq (hcolon _) (hcolon _) h
      have hip := @IpAddr.text_inj (.v4 ip) (.v4 ip') htext
      cases hip
      rw [UInt16.toNat_inj.mp (toDigits_inj hport)]
    | v6 ip' scopeId' port' =>
      refine absurd ?_ (hbracket ip port)
      rw [h]
      exact List.mem_cons_self
  | v6 ip scopeId port =>
    cases address' with
    | v4 ip' port' =>
      refine absurd ?_ (hbracket ip' port')
      rw [← h]
      exact List.mem_cons_self
    | v6 ip' scopeId' port' =>
      have hends : ('[' :: ip.text ++ (if scopeId = 0 then [] else '%' :: Nat.toDigits 10 scopeId) ++
            [']']) ++ ':' :: Nat.toDigits 10 port.toNat =
          ('[' :: ip'.text ++ (if scopeId' = 0 then [] else '%' :: Nat.toDigits 10 scopeId') ++
            [']']) ++ ':' :: Nat.toDigits 10 port'.toNat := by
        simpa [SocketAddr.text] using h
      obtain ⟨hinside,hport⟩ := after_eq (hcolon _) (hcolon _) hends
      obtain ⟨htext,rfl⟩ := scopedText_inj (List.cons.inj (List.append_cancel_right hinside)).2
      have hip := @IpAddr.text_inj (.v6 ip) (.v6 ip') htext
      cases hip
      rw [UInt16.toNat_inj.mp (toDigits_inj hport)]

end AtlasKernel.Lib
