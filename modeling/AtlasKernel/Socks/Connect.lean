import AtlasKernel.Socks.UdpPacket

/-! The SOCKS5 handshake of a TCP connection: a greeting, a command and an address, read from
whatever pieces they arrive in. What the runtime does to open the outbound connection is any
function of the target. Source: `handle_socks5` and `read_socks_target` in `main.rs`. -/
namespace AtlasKernel.Socks
open AtlasKernel.Lib AtlasKernel.Vless AtlasKernel.Shadowsocks

/-- `client.read_exact` into a buffer of `n` bytes -/
def readBuffer (n : Nat) (client : List Bytes) :
    Except String ({bytes : Bytes // bytes.length = n} × List Bytes) :=
  match h : readExact n client with
  | none => .error "early eof"
  | some (bytes, client) => .ok (⟨bytes, (readExact_flatten h).2⟩, client)

def readSocksHost (client : List Bytes) (atyp : UInt8) : Except String (String × List Bytes) :=
  if atyp = 0x01 then do
    let (octets, client) ← readBuffer 4 client
    .ok (String.ofList (Ipv4Addr.text ⟨octets.val, octets.property⟩), client)
  else if atyp = 0x03 then do
    let (len, client) ← readBuffer 1 client
    let (name, client) ← readBuffer (byteAt len.val 0).toNat client
    let host ← fromUtf8 name.val
    .ok (host, client)
  else if atyp = 0x04 then do
    let (octets, client) ← readBuffer 16 client
    .ok (String.ofList (Ipv6Addr.text ⟨octets.val, octets.property⟩), client)
  else .error "unsupported SOCKS address type"

def readSocksTarget (client : List Bytes) (atyp : UInt8) :
    Except String (TargetAddress × List Bytes) := do
  let (host, client) ← readSocksHost client atyp
  let (port, client) ← readBuffer 2 client
  .ok (⟨host, UInt16.ofNat (be16At port.val 0)⟩, client)

/-- What becomes of the connection, with what the client has sent behind its request. -/
inductive SocksFlow where
  | udpAssociate (client : List Bytes)
  | tunnel (target : TargetAddress) (client : List Bytes)
deriving DecidableEq, Repr

/-- What the client has been sent, and the outcome. -/
structure SocksRun where
  replies : Bytes
  outcome : Except String SocksFlow

def commandRefused : Bytes := [0x05, 0x07, 0x00, 0x01, 0, 0, 0, 0, 0, 0]
def connected : Bytes := [0x05, 0x00, 0x00, 0x01, 0, 0, 0, 0, 0, 0]

/-- The command, behind the answer to the greeting. -/
def handleRequest (connect : TargetAddress → Except String Unit) (greeted : Bytes)
    (client : List Bytes) : SocksRun :=
  match readBuffer 4 client with
  | .error err => ⟨greeted, .error err⟩
  | .ok (requestHead, client) =>
    let command := byteAt requestHead.val 1
    let target := readSocksTarget client (byteAt requestHead.val 3)
    if command = 0x03 then
      ⟨greeted, target.map fun r => .udpAssociate r.2⟩
    else if command ≠ 0x01 then
      ⟨greeted ++ commandRefused, .error "unsupported SOCKS command"⟩
    else
      match target with
      | .error err => ⟨greeted, .error err⟩
      | .ok (target, client) =>
        match connect target with
        | .error err => ⟨greeted, .error err⟩
        | .ok () => ⟨greeted ++ connected, .ok (.tunnel target client)⟩

/-- The methods are read and not looked at. -/
def handleSocks5 (connect : TargetAddress → Except String Unit) (version : UInt8)
    (client : List Bytes) : SocksRun :=
  match readBuffer 1 client with
  | .error err => ⟨[], .error err⟩
  | .ok (methodsLen, client) =>
    match readBuffer (byteAt methodsLen.val 0).toNat client with
    | .error err => ⟨[], .error err⟩
    | .ok (_, client) => handleRequest connect [version, 0x00] client

/-! ## What the client says -/

/-- The methods it offers; their number has one byte. -/
structure Greeting where
  methods : Bytes
  few : methods.length ≤ 255

def Greeting.bytes (greeting : Greeting) : Bytes :=
  UInt8.ofNat greeting.methods.length :: greeting.methods

/-- A command for an endpoint. The version and the reserved byte can be anything. -/
def commandBytes (version command reserved : UInt8) (endpoint : Endpoint) : Bytes :=
  version :: command :: reserved ::
    (endpoint.host.bytes socksCodes ++ be16 endpoint.port.toNat)

theorem readBuffer_iff {n : Nat} {client rest : List Bytes} {bytes : {bytes : Bytes // bytes.length = n}} :
    readBuffer n client = .ok (bytes, rest) ↔ readExact n client = some (bytes.val, rest) := by
  obtain ⟨bytes,hlen⟩ := bytes
  rw [readBuffer]
  split
  case h_1 hnone => simp [hnone]
  case h_2 bytes' rest' hsome => simp [hsome]

theorem readBuffer_flatten {n : Nat} {client rest : List Bytes}
    {bytes : {bytes : Bytes // bytes.length = n}} (h : readBuffer n client = .ok (bytes, rest)) :
    client.flatten = bytes.val ++ rest.flatten :=
  (readExact_flatten (readBuffer_iff.mp h)).1

theorem readBuffer_append {client : List Bytes} {front more : Bytes}
    (h : client.flatten = front ++ more) :
    ∃ rest, readBuffer front.length client = .ok (⟨front, rfl⟩, rest) ∧ rest.flatten = more := by
  obtain ⟨rest,hread,hrest⟩ := readExact_of_append h
  exact ⟨rest,readBuffer_iff.mpr hread,hrest⟩

/-- The same for a number that is the length in another way. -/
theorem readBuffer_of_length {n : Nat} {client : List Bytes} {front more : Bytes}
    (h : client.flatten = front ++ more) (hn : front.length = n) :
    ∃ rest, readBuffer n client = .ok (⟨front, hn⟩, rest) ∧ rest.flatten = more := by
  subst hn
  exact readBuffer_append h

/-- What cannot be read is not there. -/
theorem readBuffer_error {n : Nat} {client : List Bytes} {err : String}
    (h : readBuffer n client = .error err) : err = "early eof" ∧ client.flatten.length < n := by
  refine ⟨?_,Nat.lt_of_not_le fun hle => ?_⟩
  · rw [readBuffer] at h
    split at h
    · cases h
      rfl
    · cases h
  · obtain ⟨rest,hread,_⟩ := readBuffer_of_length (List.take_append_drop n client.flatten).symm
      (List.length_take_of_le hle)
    rw [hread] at h
    cases h

theorem bind_ok {α β : Type} {result : Except String α} {f : α → Except String β} {b : β}
    (h : (result >>= f) = .ok b) : ∃ a, result = .ok a ∧ f a = .ok b := by
  cases result with
  | error err => cases h
  | ok a => exact ⟨a,rfl,h⟩

theorem readSocksHost_of_bytes {host : Host} (hfits : host.Fits) {atyp : UInt8}
    {client : List Bytes} {more : Bytes} (h : atyp :: client.flatten = host.bytes socksCodes ++ more) :
    ∃ rest, readSocksHost client atyp = .ok (host.text, rest) ∧ rest.flatten = more := by
  cases host with
  | ip address =>
    cases address with
    | v4 ip =>
      obtain ⟨hcode,hclient⟩ : atyp = 0x01 ∧ client.flatten = ip.octets ++ more := List.cons.inj h
      obtain ⟨rest,hread,hrest⟩ := readBuffer_of_length hclient ip.size
      refine ⟨rest,?_,hrest⟩
      rw [readSocksHost, if_pos hcode, hread]
      rfl
    | v6 ip =>
      obtain ⟨rfl,hclient⟩ : atyp = 0x04 ∧ client.flatten = ip.octets ++ more := List.cons.inj h
      obtain ⟨rest,hread,hrest⟩ := readBuffer_of_length hclient ip.size
      refine ⟨rest,?_,hrest⟩
      rw [readSocksHost, if_neg (by decide), if_neg (by decide), if_pos rfl, hread]
      rfl
  | domain name =>
    obtain ⟨rfl,hone⟩ : atyp = 0x03 ∧ client.flatten =
      [UInt8.ofNat (utf8 name.toList).length] ++ (utf8 name.toList ++ more) := List.cons.inj h
    have hbyte : (UInt8.ofNat (utf8 name.toList).length).toNat = (utf8 name.toList).length := by
      rw [UInt8.toNat_ofNat', Nat.mod_eq_of_lt (Nat.lt_succ_of_le hfits)]
    obtain ⟨next,hlen,hnext⟩ := @readBuffer_of_length 1 _ _ _ hone rfl
    obtain ⟨rest,hread,hrest⟩ := readBuffer_of_length hnext hbyte.symm
    refine ⟨rest,?_,hrest⟩
    rw [readSocksHost, if_neg (by decide), if_pos rfl, hlen]
    change (readBuffer (UInt8.ofNat (utf8 name.toList).length).toNat next >>= fun r =>
      (fromUtf8 r.1.val >>= fun host => Except.ok (host, r.2))) = _
    rw [hread]
    change (fromUtf8 (utf8 name.toList) >>= fun host => Except.ok (host, rest)) = _
    rw [fromUtf8_utf8]
    rfl

theorem readSocksHost_ok {atyp : UInt8} {client rest : List Bytes} {text : String}
    (h : readSocksHost client atyp = .ok (text, rest)) :
    ∃ host : Host, host.Fits ∧ atyp :: client.flatten = host.bytes socksCodes ++ rest.flatten ∧
      text = host.text := by
  rw [readSocksHost] at h
  by_cases hipv4 : atyp = 0x01
  · rw [if_pos hipv4] at h
    obtain ⟨⟨octets,next⟩,hread,hok⟩ := bind_ok h
    cases hok
    refine ⟨.ip (.v4 ⟨octets.val,octets.property⟩),trivial,?_,rfl⟩
    rw [readBuffer_flatten hread, hipv4]
    rfl
  · by_cases hdomain : atyp = 0x03
    · rw [if_neg hipv4, if_pos hdomain] at h
      obtain ⟨⟨len,next⟩,hlen,h⟩ := bind_ok h
      obtain ⟨⟨name,next'⟩,hname,h⟩ := bind_ok h
      obtain ⟨host,hhost,hok⟩ := bind_ok h
      cases hok
      have htext := utf8_of_fromUtf8 hhost
      obtain ⟨bytes,hone⟩ := len
      obtain ⟨b,rfl⟩ := List.length_eq_one_iff.mp hone
      have hsize : (utf8 text.toList).length = b.toNat := by
        rw [htext]
        exact name.property
      refine ⟨.domain text,?_,?_,rfl⟩
      · have hlt := b.toNat_lt
        rw [Host.Fits, hsize]
        omega
      · rw [Host.bytes, hsize, UInt8.ofNat_toNat, htext, readBuffer_flatten hlen,
          readBuffer_flatten hname, hdomain]
        rfl
    · by_cases hipv6 : atyp = 0x04
      · rw [if_neg hipv4, if_neg hdomain, if_pos hipv6] at h
        obtain ⟨⟨octets,next⟩,hread,hok⟩ := bind_ok h
        cases hok
        refine ⟨.ip (.v6 ⟨octets.val,octets.property⟩),trivial,?_,rfl⟩
        rw [readBuffer_flatten hread, hipv6]
        rfl
      · rw [if_neg hipv4, if_neg hdomain, if_neg hipv6] at h
        cases h

/-- An address and a port are read as the endpoint they are. -/
theorem readSocksTarget_of_bytes {endpoint : Endpoint} (hfits : endpoint.host.Fits) {atyp : UInt8}
    {client : List Bytes} {more : Bytes}
    (h : atyp :: client.flatten =
      endpoint.host.bytes socksCodes ++ (be16 endpoint.port.toNat ++ more)) :
    ∃ rest, readSocksTarget client atyp = .ok (targetOf endpoint, rest) ∧ rest.flatten = more := by
  obtain ⟨next,hhost,hnext⟩ := readSocksHost_of_bytes hfits h
  obtain ⟨rest,hport,hrest⟩ := readBuffer_of_length hnext (be16_length _)
  refine ⟨rest,?_,hrest⟩
  have hvalue := be16At_be16 endpoint.port.toNat []
  rw [List.append_nil, Nat.mod_eq_of_lt endpoint.port.toNat_lt] at hvalue
  rw [readSocksTarget, hhost]
  change (readBuffer 2 next >>= fun r =>
    Except.ok ((⟨endpoint.host.text, UInt16.ofNat (be16At r.1.val 0)⟩ : TargetAddress), r.2)) = _
  rw [hport]
  change Except.ok ((⟨endpoint.host.text, UInt16.ofNat (be16At (be16 endpoint.port.toNat) 0)⟩ :
    TargetAddress), rest) = _
  rw [hvalue, UInt16.ofNat_toNat]
  rfl

/-- What is read as a target was the address of an endpoint, and a port. -/
theorem readSocksTarget_ok {atyp : UInt8} {client rest : List Bytes} {target : TargetAddress}
    (h : readSocksTarget client atyp = .ok (target, rest)) :
    ∃ endpoint : Endpoint, endpoint.host.Fits ∧ target = targetOf endpoint ∧
      atyp :: client.flatten =
        endpoint.host.bytes socksCodes ++ (be16 endpoint.port.toNat ++ rest.flatten) := by
  obtain ⟨⟨text,next⟩,hhost,h⟩ := bind_ok h
  obtain ⟨⟨port,next'⟩,hport,hok⟩ := bind_ok h
  cases hok
  obtain ⟨host,hfits,hbytes,rfl⟩ := readSocksHost_ok hhost
  obtain ⟨bytes,htwo⟩ := port
  obtain ⟨hi,lo,rfl⟩ := List.length_eq_two.mp htwo
  have hport' : be16 (UInt16.ofNat (be16At [hi, lo] 0)).toNat = [hi, lo] := by
    rw [UInt16.toNat_ofNat', Nat.mod_eq_of_lt (be16At_lt [hi, lo] 0)]
    exact be16_ofBe16 hi lo
  refine ⟨⟨host,UInt16.ofNat (be16At [hi, lo] 0)⟩,hfits,rfl,?_⟩
  rw [hport', hbytes, readBuffer_flatten hport]

/-- The client has greeted, and sent `more` behind that. -/
def Greets (client : List Bytes) (more : Bytes) : Prop :=
  ∃ greeting : Greeting, client.flatten = greeting.bytes ++ more

/-- A command for the target, and `rest` behind that. -/
def Requests (command : UInt8) (bytes : Bytes) (target : TargetAddress) (rest : Bytes) : Prop :=
  ∃ version reserved, ∃ endpoint : Endpoint, endpoint.host.Fits ∧ target = targetOf endpoint ∧
    bytes = commandBytes version command reserved endpoint ++ rest

/-- The client has greeted and given this command for the target, and sent `rest` behind that. -/
def AsksFor (command : UInt8) (client : List Bytes) (target : TargetAddress) (rest : Bytes) : Prop :=
  ∃ more, Greets client more ∧ Requests command more target rest

/-- The greeting is read, or it is not there. -/
theorem handleSocks5_cases (connect : TargetAddress → Except String Unit) (version : UInt8)
    (client : List Bytes) :
    (∃ next, Greets client next.flatten ∧
      handleSocks5 connect version client = handleRequest connect [version, 0x00] next) ∨
    (∀ more, ¬ Greets client more) ∧
      handleSocks5 connect version client = ⟨[], .error "early eof"⟩ := by
  rw [handleSocks5]
  cases hlen : readBuffer 1 client with
  | error err =>
    obtain ⟨rfl,hshort⟩ := readBuffer_error hlen
    refine .inr ⟨?_,rfl⟩
    rintro more ⟨greeting,hbytes⟩
    rw [hbytes, Greeting.bytes] at hshort
    simp at hshort
  | ok result =>
    obtain ⟨⟨len,hone⟩,next⟩ := result
    obtain ⟨b,rfl⟩ := List.length_eq_one_iff.mp hone
    have hfront := readBuffer_flatten hlen
    dsimp only
    cases hmethods : readBuffer (byteAt [b] 0).toNat next with
    | error err =>
      obtain ⟨rfl,hshort⟩ := readBuffer_error hmethods
      refine .inr ⟨?_,rfl⟩
      rintro more ⟨⟨methods,few⟩,hbytes⟩
      obtain ⟨hb,hmore⟩ := List.cons.inj (hfront.symm.trans hbytes)
      have hsize : b.toNat = methods.length := by
        rw [hb, UInt8.toNat_ofNat', Nat.mod_eq_of_lt (Nat.lt_succ_of_le few)]
      have hcount : next.flatten.length < methods.length := hsize ▸ hshort
      have hlength := congrArg List.length hmore
      simp at hlength hcount
      omega
    | ok result =>
      obtain ⟨⟨methods,hcount⟩,next'⟩ := result
      have hbehind := readBuffer_flatten hmethods
      have hsize : methods.length = b.toNat := hcount
      have hlt := b.toNat_lt
      refine .inl ⟨next',⟨⟨methods,by omega⟩,?_⟩,rfl⟩
      have hfirst : b = UInt8.ofNat methods.length := by rw [hsize, UInt8.ofNat_toNat]
      rw [hfront, hbehind]
      exact congrArg (· :: (methods ++ next'.flatten)) hfirst

/-- A greeting leaves what is behind it, whatever that is. -/
theorem Greets.unique {client : List Bytes} {more more' : Bytes} (h : Greets client more)
    (h' : Greets client more') : more = more' := by
  obtain ⟨⟨methods,few⟩,hbytes⟩ := h
  obtain ⟨⟨methods',few'⟩,hbytes'⟩ := h'
  rw [hbytes'] at hbytes
  obtain ⟨hlen,hrest⟩ := List.cons.inj hbytes
  have hsize := congrArg UInt8.toNat hlen
  rw [UInt8.toNat_ofNat', UInt8.toNat_ofNat', Nat.mod_eq_of_lt (Nat.lt_succ_of_le few),
    Nat.mod_eq_of_lt (Nat.lt_succ_of_le few')] at hsize
  exact (List.append_inj hrest hsize).2.symm

/-- A request behind the greeting, read to its end. -/
theorem Requests.read {command : UInt8} {client : List Bytes} {target : TargetAddress} {rest : Bytes}
    (h : Requests command client.flatten target rest) :
    ∃ requestHead next rest', readBuffer 4 client = .ok (requestHead, next) ∧
      byteAt requestHead.val 1 = command ∧
      readSocksTarget next (byteAt requestHead.val 3) = .ok (target, rest') ∧
      rest'.flatten = rest := by
  obtain ⟨version,reserved,endpoint,hfits,rfl,hclient⟩ := h
  obtain ⟨atyp,more,hbytes⟩ : ∃ atyp more, endpoint.host.bytes socksCodes = atyp :: more :=
    List.exists_cons_of_length_pos (Host.bytes_pos socksCodes endpoint.host)
  have hfront : client.flatten = [version, command, reserved, atyp] ++
      (more ++ (be16 endpoint.port.toNat ++ rest)) := by
    rw [hclient, commandBytes, hbytes]
    simp
  obtain ⟨next,hread,hnext⟩ := @readBuffer_of_length 4 _ _ _ hfront rfl
  have htarget : atyp :: next.flatten =
      endpoint.host.bytes socksCodes ++ (be16 endpoint.port.toNat ++ rest) := by
    rw [hnext, hbytes]
    rfl
  obtain ⟨rest',hok,hrest⟩ := readSocksTarget_of_bytes hfits htarget
  exact ⟨_,next,rest',hread,rfl,hok,hrest⟩

/-- What is read of a request was sent. -/
theorem requests_of_read {client next rest : List Bytes}
    {requestHead : {bytes : Bytes // bytes.length = 4}} {target : TargetAddress}
    (hread : readBuffer 4 client = .ok (requestHead, next))
    (hok : readSocksTarget next (byteAt requestHead.val 3) = .ok (target, rest)) :
    Requests (byteAt requestHead.val 1) client.flatten target rest.flatten := by
  obtain ⟨head,hfour⟩ := requestHead
  match head, hfour with
  | [version, command, reserved, atyp], _ =>
    obtain ⟨endpoint,hfits,htarget,hbytes⟩ := readSocksTarget_ok hok
    refine ⟨version,reserved,endpoint,hfits,htarget,?_⟩
    have hbytes' : atyp :: next.flatten =
      endpoint.host.bytes socksCodes ++ (be16 endpoint.port.toNat ++ rest.flatten) := hbytes
    rw [readBuffer_flatten hread, commandBytes]
    change version :: command :: reserved :: (atyp :: next.flatten) = _
    rw [hbytes']
    simp [byteAt]

/-- What a request comes to. -/
theorem Requests.handled {command : UInt8} {client : List Bytes} {target : TargetAddress}
    {rest : Bytes} (h : Requests command client.flatten target rest)
    (connect : TargetAddress → Except String Unit) (greeted : Bytes) :
    ∃ rest', rest'.flatten = rest ∧ handleRequest connect greeted client =
      if command = 0x03 then ⟨greeted, .ok (.udpAssociate rest')⟩
      else if command ≠ 0x01 then
        ⟨greeted ++ commandRefused, .error "unsupported SOCKS command"⟩
      else
        match connect target with
        | .error err => ⟨greeted, .error err⟩
        | .ok () => ⟨greeted ++ connected, .ok (.tunnel target rest')⟩ := by
  obtain ⟨requestHead,next,rest',hread,hcommand,hok,hrest⟩ := h.read
  refine ⟨rest',hrest,?_⟩
  rw [handleRequest, hread]
  simp only [hcommand, hok]
  rfl

/-- An answer says what has been asked for. -/
theorem handleRequest_answers (connect : TargetAddress → Except String Unit) (greeted : Bytes)
    (client : List Bytes) :
    match (handleRequest connect greeted client).outcome with
    | .ok (.tunnel target rest) => Requests 0x01 client.flatten target rest.flatten ∧
        connect target = .ok () ∧
        (handleRequest connect greeted client).replies = greeted ++ connected
    | .ok (.udpAssociate rest) => (∃ target, Requests 0x03 client.flatten target rest.flatten) ∧
        (handleRequest connect greeted client).replies = greeted
    | .error _ => (handleRequest connect greeted client).replies = greeted ∨
        (handleRequest connect greeted client).replies = greeted ++ commandRefused := by
  rw [handleRequest]
  cases hread : readBuffer 4 client with
  | error err => exact .inl rfl
  | ok result =>
    obtain ⟨requestHead,next⟩ := result
    dsimp only
    by_cases hudp : byteAt requestHead.val 1 = 0x03
    · rw [if_pos hudp]
      cases hok : readSocksTarget next (byteAt requestHead.val 3) with
      | error err => exact .inl rfl
      | ok result =>
        have hasked := requests_of_read hread hok
        rw [hudp] at hasked
        exact ⟨⟨result.1,hasked⟩,rfl⟩
    · by_cases htcp : byteAt requestHead.val 1 = 0x01
      · rw [if_neg hudp, if_neg (not_not.mpr htcp)]
        cases hok : readSocksTarget next (byteAt requestHead.val 3) with
        | error err => exact .inl rfl
        | ok result =>
          have hasked := requests_of_read hread hok
          rw [htcp] at hasked
          dsimp only
          cases hconnect : connect result.1 with
          | error err => exact .inl rfl
          | ok _ => exact ⟨hasked,hconnect,rfl⟩
      · rw [if_neg hudp, if_pos htcp]
        exact .inr rfl

theorem Greets.asksFor_iff {client : List Bytes} {more : Bytes} (h : Greets client more)
    {command : UInt8} {target : TargetAddress} {rest : Bytes} :
    AsksFor command client target rest ↔ Requests command more target rest := by
  constructor
  · rintro ⟨more',hgreets,hrequests⟩
    rw [h.unique hgreets]
    exact hrequests
  · exact fun hrequests => ⟨more,h,hrequests⟩

variable (connect : TargetAddress → Except String Unit) (version : UInt8) (client : List Bytes)

theorem handleSocks5_tunnel_iff (target : TargetAddress) (rest : Bytes) :
    (∃ left, (handleSocks5 connect version client).outcome = .ok (.tunnel target left) ∧
        left.flatten = rest) ↔
      AsksFor 0x01 client target rest ∧ connect target = .ok () := by
  obtain ⟨next,hgreets,hrun⟩ | ⟨hnone,hrun⟩ := handleSocks5_cases connect version client
  · rw [hrun, hgreets.asksFor_iff]
    constructor
    · rintro ⟨left,houtcome,rfl⟩
      have hanswers := handleRequest_answers connect [version, 0x00] next
      rw [houtcome] at hanswers
      exact ⟨hanswers.1,hanswers.2.1⟩
    · rintro ⟨hasked,hconnect⟩
      obtain ⟨left,hleft,hhandled⟩ := hasked.handled connect [version, 0x00]
      refine ⟨left,?_,hleft⟩
      rw [hhandled, if_neg (by decide), if_neg (by decide), hconnect]
  · rw [hrun]
    refine iff_of_false ?_ ?_
    · rintro ⟨left,houtcome,_⟩
      cases houtcome
    · rintro ⟨⟨more,hgreets,_⟩,_⟩
      exact hnone more hgreets

theorem handleSocks5_associate_iff (rest : Bytes) :
    (∃ left, (handleSocks5 connect version client).outcome = .ok (.udpAssociate left) ∧
        left.flatten = rest) ↔ ∃ target, AsksFor 0x03 client target rest := by
  obtain ⟨next,hgreets,hrun⟩ | ⟨hnone,hrun⟩ := handleSocks5_cases connect version client
  · rw [hrun]
    constructor
    · rintro ⟨left,houtcome,rfl⟩
      have hanswers := handleRequest_answers connect [version, 0x00] next
      rw [houtcome] at hanswers
      obtain ⟨⟨target,hrequests⟩,_⟩ := hanswers
      exact ⟨target,hgreets.asksFor_iff.mpr hrequests⟩
    · rintro ⟨target,hasked⟩
      obtain ⟨left,hleft,hhandled⟩ :=
        (hgreets.asksFor_iff.mp hasked).handled connect [version, 0x00]
      refine ⟨left,?_,hleft⟩
      rw [hhandled, if_pos rfl]
  · rw [hrun]
    refine iff_of_false ?_ ?_
    · rintro ⟨left,houtcome,_⟩
      cases houtcome
    · rintro ⟨target,more,hgreets,_⟩
      exact hnone more hgreets

/-- Nothing is answered before the greeting is there. -/
theorem handleSocks5_greeted_iff :
    (∃ more, Greets client more) ↔
      [version, 0x00] <+: (handleSocks5 connect version client).replies := by
  obtain ⟨next,hgreets,hrun⟩ | ⟨hnone,hrun⟩ := handleSocks5_cases connect version client
  · refine iff_of_true ⟨_,hgreets⟩ ?_
    have hanswers := handleRequest_answers connect [version, 0x00] next
    rw [← hrun] at hanswers
    revert hanswers
    cases (handleSocks5 connect version client).outcome with
    | error err =>
      rintro (hreplies | hreplies)
      · exact hreplies ▸ List.prefix_rfl
      · exact hreplies ▸ List.prefix_append _ _
    | ok flow =>
      cases flow with
      | udpAssociate left => exact fun hanswers => hanswers.2 ▸ List.prefix_rfl
      | tunnel target left =>
        intro hanswers
        rw [hanswers.2.2]
        exact List.prefix_append _ _
  · rw [hrun]
    refine iff_of_false (fun hgreeted => ?_) (by simp)
    obtain ⟨more,hgreets⟩ := hgreeted
    exact hnone more hgreets

theorem handleSocks5_connected_iff :
    (∃ target left, (handleSocks5 connect version client).outcome = .ok (.tunnel target left)) ↔
      (handleSocks5 connect version client).replies = [version, 0x00] ++ connected := by
  obtain ⟨next,hgreets,hrun⟩ | ⟨hnone,hrun⟩ := handleSocks5_cases connect version client
  · have hanswers := handleRequest_answers connect [version, 0x00] next
    rw [← hrun] at hanswers
    constructor
    · rintro ⟨target,left,houtcome⟩
      rw [houtcome] at hanswers
      exact hanswers.2.2
    · intro hreplies
      revert hanswers
      cases (handleSocks5 connect version client).outcome with
      | error err =>
        rintro (h | h) <;> rw [hreplies] at h
        · simp [connected] at h
        · simp [connected, commandRefused] at h
      | ok flow =>
        cases flow with
        | udpAssociate left =>
          rintro ⟨_,h⟩
          rw [hreplies] at h
          simp [connected] at h
        | tunnel target left => exact fun _ => ⟨target,left,rfl⟩
  · rw [hrun]
    simp

/-- However the client's bytes are cut: a tunnel is opened exactly for a greeting and the command
to connect to the target, if the runtime can connect, and what follows is left for the tunnel; an
association exactly for its command; the methods are answered as soon as the greeting is there, and
nothing before; and success is reported exactly when there is a tunnel. -/
theorem socks5_handshake :
    (∀ target rest, (∃ left, (handleSocks5 connect version client).outcome =
        .ok (.tunnel target left) ∧ left.flatten = rest) ↔
      AsksFor 0x01 client target rest ∧ connect target = .ok ()) ∧
    (∀ rest, (∃ left, (handleSocks5 connect version client).outcome =
        .ok (.udpAssociate left) ∧ left.flatten = rest) ↔
      ∃ target, AsksFor 0x03 client target rest) ∧
    ((∃ more, Greets client more) ↔
      [version, 0x00] <+: (handleSocks5 connect version client).replies) ∧
    ((∃ target left, (handleSocks5 connect version client).outcome =
        .ok (.tunnel target left)) ↔
      (handleSocks5 connect version client).replies = [version, 0x00] ++ connected) :=
  ⟨handleSocks5_tunnel_iff connect version client,handleSocks5_associate_iff connect version client,
    handleSocks5_greeted_iff connect version client,handleSocks5_connected_iff connect version client⟩

end AtlasKernel.Socks
