import AtlasKernel.Lib.DebugText

/-! The keys of the client caches of the AnyTLS and Hysteria2 adapters: texts and numbers
with separators between them. `Debug` prints each character that is neither printable nor
ASCII in its own way, which is the parameter `unicode`. Source: `adapter/anytls.rs`,
`adapter/hysteria2.rs`. -/
namespace AtlasKernel.Adapter
open AtlasKernel.Lib

/-! ## A server, a port and two texts -/

def portText (port : UInt16) : List Char := (toString port.toNat).toList

/-- `server:port`, and the two texts with a separator in front of each. -/
def endpointText (sep : Char) (server : String) (port : UInt16) (first second : String) : List Char :=
  server.toList ++ ':' :: (portText port ++ sep :: (first.toList ++ sep :: second.toList))

/-- Where nothing in the texts can be taken for what stands between them. -/
structure PlainTexts (sep : Char) (server first second : String) : Prop where
  server : ∀ front port, ¬ front ++ ':' :: (portText port ++ [sep]) <+: server.toList ++ [':']
  first : sep ∉ first.toList
  second : sep ∉ second.toList

theorem portText_inj {port port' : UInt16} (h : portText port = portText port') : port = port' :=
  UInt16.toNat_inj.mp (Nat.repr_injective (String.toList_inj.mp h))

theorem notMem_portText {c : Char} (h : c.isDigit = false) (port : UInt16) : c ∉ portText port :=
  not_mem_natText h _

/-- One separator can be taken in one way only. -/
theorem one_separator {sep : Char} {as bs xs ys : List Char} (has : sep ∉ as) (hbs : sep ∉ bs)
    (h : as ++ sep :: bs = xs ++ sep :: ys) : as = xs ∧ bs = ys := by
  have hcount := congrArg (List.count sep) h
  simp only [List.count_append, List.count_cons_self, List.count_eq_zero_of_not_mem has,
    List.count_eq_zero_of_not_mem hbs] at hcount
  have hxs : sep ∉ xs := List.count_eq_zero.mp (by omega)
  exact until_eq has hxs h

/-- The front of a server and a port ends in the server, or with the colon. -/
theorem front_in_server {sep : Char} {server more : List Char} {port : UInt16} {front : List Char}
    (hsep : sep ∉ portText port) (h : server ++ ':' :: portText port = front ++ sep :: more) :
    front ++ [sep] <+: server ++ [':'] := by
  have hends : (server ++ [':']) ++ portText port = (front ++ [sep]) ++ more := by simpa using h
  rcases List.append_eq_append_iff.mp hends with ⟨digits,hfront,hport⟩ | ⟨rest,hserver,-⟩
  · cases digits.eq_nil_or_concat with
    | inl hnil =>
      rw [hnil, List.append_nil] at hfront
      exact ⟨[],by simp [hfront]⟩
    | inr hlast =>
      obtain ⟨digits,c,rfl⟩ := hlast
      rw [List.concat_eq_append] at hfront hport
      rw [← List.append_assoc] at hfront
      obtain rfl := (List.append_singleton_inj.mp hfront).2
      exact absurd (by simp [hport]) hsep
  · rw [hserver]
    exact List.prefix_append _ _

theorem endpointText_inj {sep : Char} (hsep : sep.isDigit = false) {server server' : String}
    {port port' : UInt16} {first first' second second' : String}
    (hplain : PlainTexts sep server first second)
    (h : endpointText sep server port first second = endpointText sep server' port' first' second') :
    server = server' ∧ port = port' ∧ first = first' ∧ second = second' := by
  -- the separator behind the port, in both readings
  have hends : (server.toList ++ ':' :: portText port) ++ sep :: (first.toList ++ sep :: second.toList) =
      (server'.toList ++ ':' :: portText port') ++ sep :: (first'.toList ++ sep :: second'.toList) := by
    simpa [endpointText] using h
  have hsame : server.toList ++ ':' :: portText port = server'.toList ++ ':' :: portText port' := by
    rcases List.append_eq_append_iff.mp hends with ⟨more,hlong,hrest⟩ | ⟨more,hlong,hrest⟩
    · cases more with
      | nil => rw [hlong, List.append_nil]
      | cons c more =>
        -- a separator too many for the two texts
        rw [List.cons_append, List.cons.injEq] at hrest
        have hcount := congrArg (List.count sep) hrest.2
        simp only [List.count_append, List.count_cons_self,
          List.count_eq_zero_of_not_mem hplain.first, List.count_eq_zero_of_not_mem hplain.second] at hcount
        omega
    · cases more with
      | nil => rw [hlong, List.append_nil]
      | cons c more =>
        obtain rfl := (List.cons.inj hrest).1
        have hfront := front_in_server (notMem_portText hsep port) hlong
        rw [List.append_assoc, List.cons_append] at hfront
        exact absurd hfront (hplain.server _ _)
  rw [hsame] at hends
  have hrest := (List.cons.inj (List.append_cancel_left hends)).2
  obtain ⟨hfirst,hsecond⟩ := one_separator hplain.first hplain.second hrest
  obtain ⟨hserver,hport⟩ := after_eq (notMem_portText (by decide) _) (notMem_portText (by decide) _) hsame
  exact ⟨String.toList_inj.mp hserver,portText_inj hport,String.toList_inj.mp hfirst,
    String.toList_inj.mp hsecond⟩

/-- Texts that are not plain are read in another way as well. -/
theorem endpointText_ambiguous {sep : Char} {server first second : String} (port : UInt16)
    (h : ¬ PlainTexts sep server first second) :
    ∃ server' port' first' second',
      endpointText sep server port first second = endpointText sep server' port' first' second' ∧
        ¬ (server = server' ∧ port = port' ∧ first = first' ∧ second = second') := by
  by_cases hfirst : sep ∈ first.toList
  · obtain ⟨front,back,hsplit⟩ := List.append_of_mem hfirst
    refine ⟨server,port,String.ofList front,String.ofList (back ++ sep :: second.toList),?_,?_⟩
    · simp [endpointText, hsplit]
    · rintro ⟨-,-,rfl,-⟩
      have hlen := congrArg List.length hsplit
      simp at hlen
  · by_cases hsecond : sep ∈ second.toList
    · obtain ⟨front,back,hsplit⟩ := List.append_of_mem hsecond
      refine ⟨server,port,String.ofList (first.toList ++ sep :: front),String.ofList back,?_,?_⟩
      · simp [endpointText, hsplit]
      · rintro ⟨-,-,-,rfl⟩
        have hlen := congrArg List.length hsplit
        simp at hlen
        omega
    · have hserver : ∃ front port, front ++ ':' :: (portText port ++ [sep]) <+: server.toList ++ [':'] := by
        by_contra hnone
        simp only [not_exists] at hnone
        exact h ⟨hnone,hfirst,hsecond⟩
      obtain ⟨front,port',more,hmore⟩ := hserver
      refine ⟨String.ofList front,port',String.ofList (more ++ portText port),
        String.ofList (first.toList ++ sep :: second.toList),?_,?_⟩
      · have hwhole : (server.toList ++ [':']) ++ (portText port ++ sep :: (first.toList ++ sep :: second.toList)) =
            _ := congrArg (· ++ (portText port ++ sep :: (first.toList ++ sep :: second.toList))) hmore.symm
        simpa [endpointText] using hwhole
      · rintro ⟨rfl,-⟩
        have hlen := congrArg List.length hmore
        simp at hlen

/-! ## AnyTLS -/

structure AnyTlsConfig where
  server : String
  serverPort : UInt16
  password : String
  sni : String
  insecure : Bool
  idleSessionTimeout : Nat
  minIdleSessions : Nat
deriving DecidableEq, Repr

def boolText (b : Bool) : List Char := (if b then "true" else "false").toList

def AnyTlsConfig.cacheKey (c : AnyTlsConfig) : List Char :=
  endpointText '|' c.server c.serverPort c.sni c.password ++ '|' :: boolText c.insecure

/-- The configurations may share a client. -/
structure AnyTlsConfig.SameServer (c d : AnyTlsConfig) : Prop where
  server : c.server = d.server
  serverPort : c.serverPort = d.serverPort
  sni : c.sni = d.sni
  password : c.password = d.password
  insecure : c.insecure = d.insecure

theorem boolText_inj {a b : Bool} (h : boolText a = boolText b) : a = b := by
  revert a b
  decide

theorem notMem_boolText (b : Bool) : '|' ∉ boolText b ∧ ':' ∉ boolText b := by
  cases b <;> decide

theorem AnyTlsConfig.cacheKey_iff (c : AnyTlsConfig) :
    (∀ d : AnyTlsConfig, c.cacheKey = d.cacheKey → c.SameServer d) ↔ PlainTexts '|' c.server c.sni c.password := by
  constructor
  · intro h
    by_contra hplain
    obtain ⟨server,port,sni,password,hkey,hother⟩ := endpointText_ambiguous c.serverPort hplain
    have hsame := h ⟨server, port, password, sni, c.insecure, c.idleSessionTimeout, c.minIdleSessions⟩
      (by rw [cacheKey, cacheKey, hkey])
    exact hother ⟨hsame.server,hsame.serverPort,hsame.sni,hsame.password⟩
  · intro hplain d hkey
    obtain ⟨hends,hinsecure⟩ := after_eq (notMem_boolText _).1 (notMem_boolText _).1 hkey
    obtain ⟨hserver,hport,hsni,hpassword⟩ := endpointText_inj (by decide) hplain hends
    exact ⟨hserver,hport,hsni,hpassword,boolText_inj hinsecure⟩

/-! ## Hysteria2 -/

inductive Hy2Obfs where
  | salamander (password : String)
  | gecko (password : String)
deriving DecidableEq, Repr

inductive Hy2BbrProfile where
  | conservative
  | standard
  | aggressive
deriving DecidableEq, Repr

structure Hy2Config where
  server : String
  serverPort : UInt16
  auth : String
  sni : String
  insecure : Bool
  obfs : Option Hy2Obfs
  portHoppingRange : Option (UInt16 × UInt16)
  fastOpen : Bool
  udpTimeoutMs : UInt64
  bbrProfile : Hy2BbrProfile
deriving DecidableEq, Repr

def Hy2Obfs.debug (unicode : Char → Bool) : Hy2Obfs → List Char
  | .salamander password => debugStruct "Salamander" [("password", debugStr unicode password)]
  | .gecko password => debugStruct "Gecko" [("password", debugStr unicode password)]

def Hy2BbrProfile.debug : Hy2BbrProfile → List Char
  | .conservative => "Conservative".toList
  | .standard => "Standard".toList
  | .aggressive => "Aggressive".toList

/-- The `Debug` of a pair of ports. -/
def debugPorts (range : UInt16 × UInt16) : List Char :=
  '(' :: (portText range.1 ++ ',' :: ' ' :: (portText range.2 ++ [')']))

def Hy2Config.cacheKey (unicode : Char → Bool) (c : Hy2Config) : List Char :=
  endpointText ':' c.server c.serverPort c.auth c.sni ++ ':' :: boolText c.insecure ++
    ':' :: debugOption (Hy2Obfs.debug unicode) c.obfs ++
    ':' :: debugOption debugPorts c.portHoppingRange ++ ':' :: boolText c.fastOpen ++
    ':' :: (toString c.udpTimeoutMs.toNat).toList ++ ':' :: c.bbrProfile.debug

theorem bbr_debug : (∀ a, ':' ∉ Hy2BbrProfile.debug a) ∧
    ∀ a b, Hy2BbrProfile.debug a = Hy2BbrProfile.debug b → a = b := by
  constructor
  · intro a
    cases a <;> decide
  · intro a b
    cases a <;> cases b <;> decide

theorem ports_debug : SelfDelimiting debugPorts := by
  intro a b x y h
  simp only [debugPorts, List.cons_append, List.append_assoc, List.cons.injEq, true_and] at h
  obtain ⟨hfirst,h⟩ := until_eq (notMem_portText (by decide) _) (notMem_portText (by decide) _) h
  obtain ⟨hsecond,h⟩ := until_eq (notMem_portText (by decide) _) (notMem_portText (by decide) _)
    (List.cons.inj h).2
  exact ⟨Prod.ext (portText_inj hfirst) (portText_inj hsecond),h⟩

theorem colon_notMem_ports (range : Option (UInt16 × UInt16)) : ':' ∉ debugOption debugPorts range := by
  have hport := notMem_portText (c := ':') (by decide)
  cases range with
  | none => decide
  | some range =>
    change ':' ∉ "Some(".toList ++ (debugPorts range ++ [')'])
    simp [debugPorts, hport]

variable {unicode : Char → Bool}

theorem quote_notMem_hexText (n : Nat) : '\"' ∉ hexText n := by
  intro h
  obtain ⟨d,hd,heq⟩ := List.mem_map.mp h
  have hnone : ∀ d < 16, hexDigit d ≠ '\"' := by decide
  exact hnone d (digits_sixteen_lt n d hd) heq

/-- A quote within a string has a backslash in front of it. -/
theorem quote_escaped {text : List Char} {front back : List Char}
    (h : text.flatMap (escapeDebug unicode) = front ++ '\"' :: back) : front.getLast? = some '\\' := by
  induction text generalizing front with
  | nil => simp at h
  | cons c text ih =>
    rw [List.flatMap_cons] at h
    -- where the quote is not in the escape of the character it is in what follows
    have hlater : ∀ more, escapeDebug unicode c ++ more = front →
        text.flatMap (escapeDebug unicode) = more ++ '\"' :: back → front.getLast? = some '\\' := by
      rintro more rfl hmore
      rw [List.getLast?_append, ih hmore]
      rfl
    rcases List.append_eq_append_iff.mp h with ⟨more,hfront,hmore⟩ | ⟨more,hescape,hmore⟩
    · exact hlater more hfront.symm hmore
    · cases more with
      | nil => exact hlater [] (by simpa using hescape) (by simpa using hmore.symm)
      | cons d more =>
        obtain rfl := (List.cons.inj hmore).1
        rcases @escapeDebug_cases unicode c with ⟨hc,-,hquote⟩ | hc | ⟨k,-,hc⟩
        · cases front with
          | nil => exact absurd (List.cons.inj (hc.symm.trans hescape)).1 hquote
          | cons a front => simp [hc] at hescape
        · have hmem : '\"' ∈ escapeDebug unicode c := by simp [hescape]
          rw [hc] at hmem
          simp [quote_notMem_hexText] at hmem
        · rw [hc] at hescape
          match front, hescape with
          | [], hescape => exact absurd (List.cons.inj hescape).1 (by decide)
          | [a], hescape => rw [← (List.cons.inj hescape).1]; rfl
          | a :: b :: front, hescape => simp at hescape

def Hy2Obfs.name : Hy2Obfs → List Char
  | .salamander _ => "Salamander".toList
  | .gecko _ => "Gecko".toList

def Hy2Obfs.password : Hy2Obfs → String
  | .salamander password => password
  | .gecko password => password

theorem obfs_eq {obfs obfs' : Hy2Obfs} (hname : obfs.name = obfs'.name)
    (hpassword : obfs.password = obfs'.password) : obfs = obfs' := by
  have hkinds : "Salamander".toList ≠ "Gecko".toList := by decide
  cases obfs with
  | salamander password =>
    cases obfs' with
    | salamander password' => exact congrArg Hy2Obfs.salamander hpassword
    | gecko password' => exact absurd hname hkinds
  | gecko password =>
    cases obfs' with
    | salamander password' => exact absurd hname.symm hkinds
    | gecko password' => exact congrArg Hy2Obfs.gecko hpassword

theorem obfs_text (obfs : Hy2Obfs) : debugOption (Hy2Obfs.debug unicode) (some obfs) =
    "Some(".toList ++ obfs.name ++ " \x7b password: ".toList ++ '\"' ::
      (obfs.password.toList.flatMap (escapeDebug unicode) ++ '\"' :: " \x7d)".toList) := by
  have htail : ∀ text : List Char,
      ((text ++ ['\"']) ++ [' ', '\x7d']) ++ [')'] = text ++ '\"' :: " \x7d)".toList := by simp
  cases obfs with
  | salamander password => exact congrArg ("Some(Salamander \x7b password: \"".toList ++ ·) (htail _)
  | gecko password => exact congrArg ("Some(Gecko \x7b password: \"".toList ++ ·) (htail _)

/-- The quote a password begins with is the last one behind a blank. -/
theorem password_quote {front front' : List Char} {text text' : List Char}
    (h : front ++ ' ' :: '\"' :: text.flatMap (escapeDebug unicode) =
      front' ++ ' ' :: '\"' :: text'.flatMap (escapeDebug unicode)) : front = front' ∧ text = text' := by
  have hlater : ∀ {front front' : List Char} {text text' : List Char} {c : Char} {more : List Char},
      front' ++ [' '] = front ++ [' '] ++ c :: more →
        '\"' :: text.flatMap (escapeDebug unicode) =
          c :: more ++ '\"' :: text'.flatMap (escapeDebug unicode) → False := by
    intro front front' text text' c more hlong hrest
    rw [List.cons_append, List.cons.injEq] at hrest
    obtain ⟨rfl,hrest⟩ := hrest
    have hslash := quote_escaped hrest
    have hlast := congrArg List.getLast? hlong
    simp [List.getLast?_append, List.getLast?_cons, hslash] at hlast
  have hends : (front ++ [' ']) ++ '\"' :: text.flatMap (escapeDebug unicode) =
      (front' ++ [' ']) ++ '\"' :: text'.flatMap (escapeDebug unicode) := by simpa using h
  have hsame : front ++ [' '] = front' ++ [' '] := by
    rcases List.append_eq_append_iff.mp hends with ⟨more,hlong,hrest⟩ | ⟨more,hlong,hrest⟩
    · cases more with
      | nil => rw [hlong, List.append_nil]
      | cons c more => exact (hlater hlong hrest).elim
    · cases more with
      | nil => rw [hlong, List.append_nil]
      | cons c more => exact (hlater hlong hrest).elim
  rw [hsame] at hends
  have htext := (List.cons.inj (List.append_cancel_left hends)).2
  have hquoted := escaped_until_quote (congrArg (· ++ ['\"']) htext)
  exact ⟨List.append_cancel_right hsame,hquoted.1⟩

theorem kind_front {front front' : List Char} {obfs obfs' : Hy2Obfs}
    (h : front ++ ':' :: ("Some(".toList ++ obfs.name) = front' ++ ':' :: ("Some(".toList ++ obfs'.name)) :
    front = front' ∧ obfs.name = obfs'.name := by
  have hcolon : ∀ obfs : Hy2Obfs, ':' ∉ "Some(".toList ++ obfs.name := by
    intro obfs
    cases obfs with
    | salamander password => exact (by decide : ':' ∉ "Some(Salamander".toList)
    | gecko password => exact (by decide : ':' ∉ "Some(Gecko".toList)
  obtain ⟨hfront,hname⟩ := after_eq (hcolon obfs) (hcolon obfs') h
  exact ⟨hfront,List.append_cancel_left hname⟩

/-- The password with what stands in front of its quote and behind it. -/
theorem obfs_opens (front : List Char) (obfs : Hy2Obfs) : front ++ ':' :: ("Some(".toList ++ obfs.name ++
    " \x7b password: ".toList ++ '\"' :: (obfs.password.toList.flatMap (escapeDebug unicode) ++
      '\"' :: " \x7d)".toList)) =
    (front ++ ':' :: ("Some(".toList ++ obfs.name ++ " \x7b password:".toList) ++
      ' ' :: '\"' :: obfs.password.toList.flatMap (escapeDebug unicode)) ++ '\"' :: " \x7d)".toList := by
  have hblank : " \x7b password: ".toList = " \x7b password:".toList ++ [' '] := by decide
  rw [hblank]
  simp only [List.append_assoc, List.cons_append, List.nil_append]

/-- From the end, an obfuscation is read in one way. -/
theorem obfs_debug {front front' : List Char} {obfs obfs' : Option Hy2Obfs}
    (h : front ++ ':' :: debugOption (Hy2Obfs.debug unicode) obfs =
      front' ++ ':' :: debugOption (Hy2Obfs.debug unicode) obfs') : front = front' ∧ obfs = obfs' := by
  have hkinds : ∀ {front front' : List Char} {obfs : Hy2Obfs},
      front ++ ':' :: debugOption (Hy2Obfs.debug unicode) none ≠
        front' ++ ':' :: debugOption (Hy2Obfs.debug unicode) (some obfs) := by
    intro front front' obfs heq
    have hnone : (front ++ ':' :: debugOption (Hy2Obfs.debug unicode) none).getLast? = some 'e' := by
      rw [List.getLast?_append]
      rfl
    rw [heq, obfs_text, obfs_opens, List.getLast?_append] at hnone
    exact absurd (Option.some.inj hnone) (by decide)
  cases obfs with
  | none =>
    cases obfs' with
    | none => exact ⟨List.append_cancel_right h,rfl⟩
    | some obfs' => exact absurd h hkinds
  | some obfs =>
    cases obfs' with
    | none => exact absurd h.symm hkinds
    | some obfs' =>
      rw [obfs_text, obfs_text] at h
      rw [obfs_opens, obfs_opens] at h
      obtain ⟨hnames,hpassword⟩ := password_quote (List.append_cancel_right h)
      have hnames' : (front ++ ':' :: ("Some(".toList ++ obfs.name)) ++ " \x7b password:".toList =
          (front' ++ ':' :: ("Some(".toList ++ obfs'.name)) ++ " \x7b password:".toList := by
        simpa only [List.append_assoc, List.cons_append] using hnames
      obtain ⟨hfront,hname⟩ := kind_front (List.append_cancel_right hnames')
      exact ⟨hfront,congrArg some (obfs_eq hname (String.toList_inj.mp hpassword))⟩

theorem Hy2Config.cacheKey_iff (unicode : Char → Bool) (c : Hy2Config) :
    (∀ d : Hy2Config, c.cacheKey unicode = d.cacheKey unicode → c = d) ↔
      PlainTexts ':' c.server c.auth c.sni := by
  constructor
  · intro h
    by_contra hplain
    obtain ⟨server,port,auth,sni,hkey,hother⟩ := endpointText_ambiguous c.serverPort hplain
    have hsame := h { c with server := server, serverPort := port, auth := auth, sni := sni }
      (by rw [cacheKey, cacheKey, hkey])
    apply hother
    rw [hsame]
    exact ⟨rfl,rfl,rfl,rfl⟩
  · intro hplain d h
    have hdigit : ':'.isDigit = false := by decide
    have hnat := not_mem_natText hdigit
    obtain ⟨h,hbbr⟩ := after_eq (bbr_debug.1 _) (bbr_debug.1 _) h
    obtain ⟨h,hudp⟩ := after_eq (hnat _) (hnat _) h
    obtain ⟨h,hfast⟩ := after_eq (notMem_boolText _).2 (notMem_boolText _).2 h
    obtain ⟨h,hports⟩ := after_eq (colon_notMem_ports _) (colon_notMem_ports _) h
    obtain ⟨h,hobfs⟩ := obfs_debug h
    obtain ⟨h,hinsecure⟩ := after_eq (notMem_boolText _).2 (notMem_boolText _).2 h
    obtain ⟨hserver,hport,hauth,hsni⟩ := endpointText_inj (by decide) hplain h
    have hrange := (ports_debug.option _ _ [] [] (congrArg (· ++ []) hports)).1
    have hinsecure' := boolText_inj hinsecure
    have hfast' := boolText_inj hfast
    have hbbr' := bbr_debug.2 _ _ hbbr
    have htimeout := UInt64.toNat_inj.mp (Nat.repr_injective (String.toList_inj.mp hudp))
    clear h hbbr hfast hinsecure
    cases c
    cases d
    simp_all

/-! ## Keys -/

/-- A key belongs to one configuration exactly if nothing in its texts can be taken for what
stands between them. -/
theorem client_keys_injective_iff (unicode : Char → Bool) :
    (∀ c : AnyTlsConfig, (∀ d : AnyTlsConfig, c.cacheKey = d.cacheKey → c.SameServer d) ↔
      PlainTexts '|' c.server c.sni c.password) ∧
    ∀ c : Hy2Config, (∀ d : Hy2Config, c.cacheKey unicode = d.cacheKey unicode → c = d) ↔
      PlainTexts ':' c.server c.auth c.sni :=
  ⟨AnyTlsConfig.cacheKey_iff,Hy2Config.cacheKey_iff unicode⟩

def anyTlsNode (sni password : String) : AnyTlsConfig := ⟨"192.0.2.1", 443, password, sni, false, 30, 0⟩

def hy2Node (auth sni : String) : Hy2Config :=
  ⟨"192.0.2.1", 443, auth, sni, false, none, none, true, 15000, .standard⟩

/-- A separator within a text may stand in the other one. -/
theorem keys_collide :
    ¬ ((∀ c d : AnyTlsConfig, c.cacheKey = d.cacheKey → c.SameServer d) ∧
      ∀ unicode, ∀ c d : Hy2Config, c.cacheKey unicode = d.cacheKey unicode → c = d) ∧
    (anyTlsNode "a|b" "c").cacheKey = (anyTlsNode "a" "b|c").cacheKey ∧
    ∀ unicode, (hy2Node "a:b" "c").cacheKey unicode = (hy2Node "a" "b:c").cacheKey unicode := by
  have hanyTls : (anyTlsNode "a|b" "c").cacheKey = (anyTlsNode "a" "b|c").cacheKey := by decide
  have hhy2 : ∀ unicode, (hy2Node "a:b" "c").cacheKey unicode = (hy2Node "a" "b:c").cacheKey unicode := by
    intro unicode
    rfl
  refine ⟨fun h => ?_,hanyTls,hhy2⟩
  exact absurd (h.1 _ _ hanyTls).sni (by decide)

end AtlasKernel.Adapter
