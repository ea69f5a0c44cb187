import AtlasKernel.Lib.TlsHello
import AtlasKernel.Shadowsocks.SimpleObfsTls

/-! What simple-obfs TLS sends: a client hello that carries the first write as its session
ticket, then application records. Source: `shadowsocks/obfs.rs`. -/
namespace AtlasKernel.Shadowsocks
open AtlasKernel.Lib

/-- The clock and the random draws of the hello. -/
structure HelloDraw where
  timestamp : UInt32
  random : Vector UInt8 28
  sessionId : Vector UInt8 32
deriving DecidableEq, Repr

def tlsObfsCipherSuites : Bytes :=
  [0xc0, 0x2c, 0xc0, 0x30, 0x00, 0x9f, 0xcc, 0xa9, 0xcc, 0xa8, 0xcc, 0xaa, 0xc0, 0x2b, 0xc0, 0x2f,
    0x00, 0x9e, 0xc0, 0x24, 0xc0, 0x28, 0x00, 0x6b, 0xc0, 0x23, 0xc0, 0x27, 0x00, 0x67, 0xc0, 0x0a,
    0xc0, 0x14, 0x00, 0x39, 0xc0, 0x09, 0xc0, 0x13, 0x00, 0x33, 0x00, 0x9d, 0x00, 0x9c, 0x00, 0x3d,
    0x00, 0x3c, 0x00, 0x35, 0x00, 0x2f, 0x00, 0xff]

/-- What follows the server name. -/
def tlsObfsLastExtensions : Bytes :=
  [0x00, 0x0b, 0x00, 0x04, 0x03, 0x01, 0x00, 0x02] ++
  [0x00, 0x0a, 0x00, 0x0a, 0x00, 0x08, 0x00, 0x1d, 0x00, 0x17, 0x00, 0x19, 0x00, 0x18] ++
  [0x00, 0x0d, 0x00, 0x20, 0x00, 0x1e, 0x06, 0x01, 0x06, 0x02, 0x06, 0x03, 0x05, 0x01, 0x05, 0x02,
    0x05, 0x03, 0x04, 0x01, 0x04, 0x02, 0x04, 0x03, 0x03, 0x01, 0x03, 0x02, 0x03, 0x03, 0x02, 0x01,
    0x02, 0x02, 0x02, 0x03] ++
  [0x00, 0x16, 0x00, 0x00] ++ [0x00, 0x17, 0x00, 0x00]

def tlsObfsClientHello (draw : HelloDraw) (payload : Bytes) (server : String) : Bytes :=
  let server := utf8 server.toList
  [22] ++ [0x03, 0x01] ++ be16 (212 + payload.length + server.length) ++
  [1] ++ [0] ++ be16 (208 + payload.length + server.length) ++
  [0x03, 0x03] ++ be32 draw.timestamp.toNat ++ draw.random.toList ++
  [32] ++ draw.sessionId.toList ++
  [0x00, 0x38] ++ tlsObfsCipherSuites ++ [0x01, 0x00] ++
  be16 (79 + payload.length + server.length) ++
  [0x00, 0x23] ++ be16 payload.length ++ payload ++
  [0x00, 0x00] ++ be16 (server.length + 5) ++ be16 (server.length + 3) ++ [0] ++
  be16 server.length ++ server ++ tlsObfsLastExtensions

/-! ## What a peer reads -/

/-- The bytes are one client hello with the first write and the host in it. -/
def HelloCarries (host : String) (buf bytes : Bytes) : Prop :=
  ∃ hello, ClientHello.parse bytes = some hello ∧ hello.sessionTicket = some buf ∧
    hello.serverName = some (utf8 host.toList)

/-- The bytes are application records, and the write is what they carry. -/
def RecordsCarry (buf bytes : Bytes) : Prop :=
  ∃ records : List WireRecord, bytes = wireBytes records ∧ (∀ r ∈ records, r.isApplication) ∧
    appPayload records = buf

/-- The bytes that one write puts on the wire are well formed and carry it. -/
def FramedWrite (host : String) (first : Bool) (buf bytes : Bytes) : Prop :=
  if first then HelloCarries host buf bytes else RecordsCarry buf bytes

/-- There is room in the lengths: the longest one is that of the record. -/
def RoomFor (host : String) (first : Bool) (buf : Bytes) : Prop :=
  if first then 212 + buf.length + (utf8 host.toList).length < 65536 else buf.length < 65536

instance (host : String) (first : Bool) (buf : Bytes) : Decidable (RoomFor host first buf) :=
  inferInstanceAs (Decidable (ite ..))

/-! ## The hello -/

def sniData (server : Bytes) : Bytes :=
  be16 (server.length + 3) ++ ([0] ++ (be16 server.length ++ server))

def lastExtensions : List Extension :=
  [(0x0b, [0x03, 0x01, 0x00, 0x02]),
    (0x0a, [0x00, 0x08, 0x00, 0x1d, 0x00, 0x17, 0x00, 0x19, 0x00, 0x18]),
    (0x0d, [0x00, 0x1e, 0x06, 0x01, 0x06, 0x02, 0x06, 0x03, 0x05, 0x01, 0x05, 0x02, 0x05, 0x03,
      0x04, 0x01, 0x04, 0x02, 0x04, 0x03, 0x03, 0x01, 0x03, 0x02, 0x03, 0x03, 0x02, 0x01, 0x02,
      0x02, 0x02, 0x03]),
    (0x16, []), (0x17, [])]

theorem lastExtensions_bytes : lastExtensions.flatMap Extension.bytes = tlsObfsLastExtensions := by
  decide

def helloExtensions (payload server : Bytes) : List Extension :=
  (0x23, payload) :: (0x00, sniData server) :: lastExtensions

def helloRandom (draw : HelloDraw) : Bytes := be32 draw.timestamp.toNat ++ draw.random.toList

def helloBody (draw : HelloDraw) (extensions : Bytes) : Bytes :=
  [0x03, 0x03] ++ (helloRandom draw ++ (32 :: (draw.sessionId.toList ++
    (0x00 :: 0x38 :: (tlsObfsCipherSuites ++ (0x01 :: ([0x00] ++
      (be16 extensions.length ++ extensions))))))))

theorem sniData_length (server : Bytes) : (sniData server).length = server.length + 5 := by
  simp [sniData]
  omega

theorem helloExtensions_length (payload server : Bytes) :
    ((helloExtensions payload server).flatMap Extension.bytes).length =
      79 + payload.length + server.length := by
  simp only [helloExtensions, List.flatMap_cons, lastExtensions_bytes, List.length_append,
    Extension.bytes, be16_length, sniData_length]
  simp [tlsObfsLastExtensions]
  omega

theorem helloBody_length (draw : HelloDraw) (extensions : Bytes) :
    (helloBody draw extensions).length = 129 + extensions.length := by
  simp [helloBody, helloRandom, tlsObfsCipherSuites]
  omega

/-- The extensions of a hello, and the message around them. -/
def helloBlock (payload server : Bytes) : Bytes :=
  (helloExtensions payload server).flatMap Extension.bytes

def helloFragment (draw : HelloDraw) (payload server : Bytes) : Bytes :=
  let body := helloBody draw (helloBlock payload server)
  [1] ++ (0 :: (be16 body.length ++ body))

theorem be16_zero : be16 0x00 = [0x00, 0x00] := by decide
theorem be16_ticket : be16 0x23 = [0x00, 0x23] := by decide

theorem helloBlock_eq (payload server : Bytes) :
    helloBlock payload server = [0x00, 0x23] ++ be16 payload.length ++ payload ++
      [0x00, 0x00] ++ be16 (server.length + 5) ++ be16 (server.length + 3) ++ [0] ++
      be16 server.length ++ server ++ tlsObfsLastExtensions := by
  rw [helloBlock, helloExtensions, List.flatMap_cons, List.flatMap_cons, lastExtensions_bytes]
  simp only [Extension.bytes, sniData_length, be16_zero, be16_ticket]
  simp only [sniData, List.append_assoc]

theorem helloBody_block_length (draw : HelloDraw) (payload server : Bytes) :
    (helloBody draw (helloBlock payload server)).length = 208 + payload.length + server.length := by
  rw [helloBody_length, helloBlock, helloExtensions_length]
  omega

theorem helloFragment_length (draw : HelloDraw) (payload server : Bytes) :
    (helloFragment draw payload server).length = 212 + payload.length + server.length := by
  have hbody := helloBody_block_length draw payload server
  rw [helloFragment]
  simp only [List.length_append, List.length_cons, List.length_nil, be16_length, hbody]
  omega

/-- Every length of the hello is that of what stands behind it, until it is cut to its
field. -/
theorem tlsObfsClientHello_eq (draw : HelloDraw) (payload : Bytes) (server : String) :
    tlsObfsClientHello draw payload server =
      [0x16, 0x03, 0x01] ++ (be16 (helloFragment draw payload (utf8 server.toList)).length ++
        helloFragment draw payload (utf8 server.toList)) := by
  unfold tlsObfsClientHello
  generalize utf8 server.toList = server
  have hblock : (helloBlock payload server).length = 79 + payload.length + server.length :=
    helloExtensions_length payload server
  simp only [helloFragment_length]
  simp only [helloFragment, helloBody_block_length]
  simp only [helloBody, hblock]
  simp only [helloBlock_eq, helloRandom, List.append_assoc, List.cons_append, List.nil_append]

/-- The hello as it is read. -/
def readHello (draw : HelloDraw) (payload server : Bytes) : ClientHello where
  random := helloRandom draw
  sessionId := draw.sessionId.toList
  cipherSuites := tlsObfsCipherSuites
  compressionMethods := [0x00]
  extensions := helloExtensions payload server

theorem takeExtensions_helloBlock {payload server : Bytes}
    (h : 79 + payload.length + server.length < 65536) :
    takeExtensions (helloBlock payload server) = some (helloExtensions payload server) := by
  apply takeExtensions_bytes
  intro e he
  simp only [helloExtensions, lastExtensions, List.mem_cons, List.not_mem_nil, or_false] at he
  obtain rfl | rfl | rfl | rfl | rfl | rfl | rfl := he
  · exact ⟨by simp,by dsimp only; omega⟩
  · exact ⟨by simp,by rw [sniData_length]; omega⟩
  all_goals simp

theorem tlsObfsCipherSuites_length : tlsObfsCipherSuites.length = 56 := rfl

theorem parseBody_helloBody (draw : HelloDraw) {payload server : Bytes}
    (h : 79 + payload.length + server.length < 65536) :
    ClientHello.parseBody (helloBody draw (helloBlock payload server)) =
      some (readHello draw payload server) := by
  have hblock : (helloBlock payload server).length = 79 + payload.length + server.length :=
    helloExtensions_length payload server
  have hrandom : (helloRandom draw).length = 32 := by simp [helloRandom]
  have hsplit (bs : Bytes) : splitExact 32 (helloRandom draw ++ bs) = some (helloRandom draw, bs) := by
    rw [← hrandom, splitExact_append]
  have hsession (bs : Bytes) : takeVector8 (32 :: (draw.sessionId.toList ++ bs)) =
      some (draw.sessionId.toList, bs) := by
    have hlen : draw.sessionId.toList.length = 32 := by simp
    have htake := takeVector8_append (hlen.trans_lt (by decide)) bs
    rw [hlen] at htake
    exact htake
  have hciphers (bs : Bytes) : takeVector16 (0x00 :: 0x38 :: (tlsObfsCipherSuites ++ bs)) =
      some (tlsObfsCipherSuites, bs) := by
    have htake := takeVector16_append (tlsObfsCipherSuites_length.trans_lt (by decide)) bs
    rw [tlsObfsCipherSuites_length] at htake
    exact htake
  have hmethods (bs : Bytes) : takeVector8 (0x01 :: ([0x00] ++ bs)) = some ([0x00], bs) :=
    @takeVector8_append [0x00] (by simp) bs
  have hextensions : whole (takeVector16 (be16 (helloBlock payload server).length ++
      helloBlock payload server)) = some (helloBlock payload server) := by
    rw [whole_takeVector16, if_pos (by omega)]
  simp only [ClientHello.parseBody, helloBody, expect_append, hsplit, hsession, hciphers, hmethods,
    hextensions, takeExtensions_helloBlock h, Option.bind_eq_bind, Option.bind_some, Option.pure_def,
    readHello]

theorem serverName_readHello (draw : HelloDraw) (payload : Bytes) {server : Bytes}
    (h : server.length + 3 < 65536) : (readHello draw payload server).serverName = some server := by
  have hlookup : (readHello draw payload server).extensions.lookup 0x00 = some (sniData server) := rfl
  have hlen : ([0x00] ++ (be16 server.length ++ server)).length = server.length + 3 := by
    simp
    omega
  have hlist : whole (takeVector16 (sniData server)) =
      some ([0x00] ++ (be16 server.length ++ server)) := by
    rw [sniData, ← hlen, whole_takeVector16, if_pos (by omega)]
  simp only [ClientHello.serverName, hlookup, hlist, expect_append, whole_takeVector16,
    Option.bind_eq_bind, Option.bind_some, if_pos (by omega : server.length < 65536)]

/-- The hello carries the write exactly if the record has room for it. -/
theorem helloCarries_iff (draw : HelloDraw) (host : String) (buf : Bytes) :
    HelloCarries host buf (tlsObfsClientHello draw buf host) ↔ RoomFor host true buf := by
  have hfragment := helloFragment_length draw buf (utf8 host.toList)
  have hrecord := whole_takeVector16 (helloFragment draw buf (utf8 host.toList))
  unfold HelloCarries RoomFor
  rw [tlsObfsClientHello_eq, if_pos rfl]
  constructor
  · rintro ⟨hello,hparse,_,_⟩
    simp only [ClientHello.parse, expect_append, Option.bind_eq_bind, Option.bind_some, hrecord]
      at hparse
    split at hparse
    · omega
    · cases hparse
  · intro hroom
    rw [if_pos (by omega)] at hrecord
    have hbody := helloBody_block_length draw buf (utf8 host.toList)
    have hmessage := @whole_takeVector24 (helloBody draw (helloBlock buf (utf8 host.toList)))
      (by omega)
    have hread := @parseBody_helloBody draw buf (utf8 host.toList) (by omega)
    refine ⟨readHello draw buf (utf8 host.toList),?_,rfl,?_⟩
    · simp only [ClientHello.parse, expect_append, Option.bind_eq_bind, Option.bind_some, hrecord]
      simp only [helloFragment, expect_append, Option.bind_some, hmessage, hread]
    · exact serverName_readHello draw buf (by omega)

/-! ## Later writes -/

theorem wireBytes_length (records : List WireRecord) (h : ∀ r ∈ records, r.isApplication) :
    (wireBytes records).length = 5 * records.length + (appPayload records).length := by
  induction records with
  | nil => rfl
  | cons r records ih =>
    obtain ⟨hr,hrecords⟩ := List.forall_mem_cons.mp h
    have hpayload : appPayload (r :: records) = r.payload ++ appPayload records := by
      simp [appPayload, hr]
    rw [wireBytes_cons, hpayload, List.length_append, List.length_append, ih hrecords,
      r.bytes_length, List.length_cons]
    omega

theorem recordsCarry_iff (buf : Bytes) :
    RecordsCarry buf (tlsObfsRecord buf) ↔ buf.length < 65536 := by
  constructor
  · rintro ⟨records,hbytes,happ,rfl⟩
    -- one header is there, so there is one record
    have hlen := congrArg List.length hbytes
    rw [wireBytes_length records happ] at hlen
    simp only [tlsObfsRecord, List.length_append, be16_length, List.length_cons, List.length_nil] at hlen
    have hone : records.length = 1 := by omega
    obtain ⟨r,rfl⟩ := List.length_eq_one_iff.mp hone
    have hr := happ r List.mem_cons_self
    simpa [appPayload, hr] using r.fits
  · intro h
    refine ⟨[⟨0x17, 0x03, buf, h⟩],?_,?_,?_⟩
    · simp [wireBytes, WireRecord.bytes, WireRecord.header, tlsObfsRecord]
    · simp [WireRecord.isApplication]
    · simp [appPayload, WireRecord.isApplication]

/-! ## Runs -/

namespace SimpleObfsTlsUpload

def new (answers : List WriteAnswer) : SimpleObfsTlsUpload := ⟨⟨answers, []⟩, true, none⟩

/-- Writes, and bytes that frame them one after another. -/
inductive FramedWrites (host : String) : List Bytes → Bytes → Prop where
  | nil : FramedWrites host [] []
  | write {bufs : List Bytes} {wire buf piece : Bytes} : FramedWrites host bufs wire →
    FramedWrite host bufs.isEmpty buf piece → FramedWrites host (bufs ++ [buf]) (wire ++ piece)

/-- What is on the wire is the framing of the accepted writes, and of a part of the write
that is not answered yet or has failed. -/
def UploadFramed (host : String) (s : WriteSession SimpleObfsTlsUpload UInt8) : Prop :=
  ∃ rest, FramedWrites host (s.accepted ++ s.caller.attempt) (s.stream.inner.sent ++ rest) ∧
    (s.caller.attempt = [] → rest = [])

/-- Between two calls what is not sent yet is the pending write. -/
def Inv (host : String) (s : WriteSession SimpleObfsTlsUpload UInt8) : Prop :=
  match s.caller with
  | .fresh | .acked =>
    s.stream.pendingWrite = none ∧ s.stream.firstRequest = s.accepted.isEmpty ∧
      FramedWrites host s.accepted s.stream.inner.sent
  | .retrying buf =>
    s.stream.firstRequest = false ∧
    ∃ p, s.stream.pendingWrite = some p ∧ p.originalLen = buf.length ∧
      FramedWrites host (s.accepted ++ [buf]) (s.stream.inner.sent ++ p.rest)
  | .failed buf _ =>
    ∃ lost, FramedWrites host (s.accepted ++ [buf]) (s.stream.inner.sent ++ lost)

theorem Inv.framed {host : String} {s : WriteSession SimpleObfsTlsUpload UInt8}
    (h : Inv host s) : UploadFramed host s := by
  obtain ⟨st,accepted,caller⟩ := s
  cases caller with
  | fresh | acked =>
    obtain ⟨_,_,hwire⟩ := h
    exact ⟨[],by simpa [Caller.attempt] using hwire,fun _ => rfl⟩
  | retrying buf =>
    obtain ⟨_,p,_,_,hwire⟩ := h
    exact ⟨p.rest,hwire,fun hnil => by cases hnil⟩
  | failed buf err =>
    obtain ⟨lost,hwire⟩ := h
    exact ⟨lost,hwire,fun hnil => by cases hnil⟩

/-- A framed write stays framed however far it gets. -/
theorem resume_inv {host : String} {accepted : List Bytes} {buf : Bytes} {p : PendingWrite}
    {inner : Sink UInt8} (caller : Caller UInt8) (st : SimpleObfsTlsUpload)
    (hlen : p.originalLen = buf.length)
    (hwire : FramedWrites host (accepted ++ [buf]) (inner.sent ++ p.rest)) :
    Inv host ((⟨st, accepted, caller⟩ : WriteSession SimpleObfsTlsUpload UInt8).settle buf
      ((p.resume inner).1, ⟨(p.resume inner).2.2, false, (p.resume inner).2.1⟩)) := by
  obtain ⟨s',hr,hsent,_⟩ | ⟨p',s',hr,hlen',hsent,_⟩ | ⟨e,s',lost,hr,hsent,_⟩ := resume_cases p inner
  · rw [hr, hlen]
    refine ⟨rfl,?_,?_⟩
    · simp [WriteSession.settle]
    · simpa [WriteSession.settle, hsent] using hwire
  · rw [hr]
    exact ⟨rfl,p',rfl,hlen'.trans hlen,by simpa [WriteSession.settle, hsent] using hwire⟩
  · rw [hr]
    exact ⟨lost,by simpa [WriteSession.settle, hsent] using hwire⟩

theorem pollWrite_inv (draw : HelloDraw) (host : String)
    (s : WriteSession SimpleObfsTlsUpload UInt8) (buf : Bytes) (h : Inv host s)
    (hmay : s.caller.mayWrite buf) (hroom : RoomFor host s.stream.firstRequest buf) :
    Inv host (s.write (pollWrite fun payload => tlsObfsClientHello draw payload host) buf) := by
  obtain ⟨⟨inner,first,pending⟩,accepted,caller⟩ := s
  cases caller with
  | fresh | acked =>
    obtain ⟨hpending,hfirst,hwire⟩ := h
    cases hpending
    have hfirst' : first = accepted.isEmpty := hfirst
    subst hfirst'
    have hpiece : FramedWrite host accepted.isEmpty buf
        (if accepted.isEmpty then tlsObfsClientHello draw buf host else tlsObfsRecord buf) := by
      unfold FramedWrite
      cases hempty : accepted.isEmpty with
      | true =>
        rw [hempty] at hroom
        exact (helloCarries_iff draw host buf).mpr hroom
      | false =>
        rw [hempty] at hroom
        exact (recordsCarry_iff buf).mpr hroom
    exact resume_inv _ _ rfl (hwire.write hpiece)
  | retrying b =>
    cases hmay
    obtain ⟨hfirst,p,hpending,hlen,hwire⟩ := h
    cases hpending
    cases hfirst
    exact resume_inv _ _ hlen hwire
  | failed b err => exact hmay.elim

end SimpleObfsTlsUpload

/-- One write is framed exactly if its lengths have room for it, and in every run of such
writes the wire carries them all. -/
theorem simple_obfs_tls_framing_iff (draw : HelloDraw) (host : String) :
    (∀ (first : Bool) (buf : Bytes),
      FramedWrite host first buf
        (if first then tlsObfsClientHello draw buf host else tlsObfsRecord buf) ↔
        RoomFor host first buf) ∧
    ∀ answers s,
      Writes (SimpleObfsTlsUpload.pollWrite fun payload => tlsObfsClientHello draw payload host)
        (fun st buf => RoomFor host st.firstRequest buf) (.new answers) s →
      SimpleObfsTlsUpload.UploadFramed host s := by
  constructor
  · intro first buf
    cases first with
    | true => exact helloCarries_iff draw host buf
    | false => exact recordsCarry_iff buf
  · intro answers s h
    have hstart : SimpleObfsTlsUpload.Inv host (.start (.new answers)) := ⟨rfl,rfl,.nil⟩
    exact (h.invariant _ hstart (SimpleObfsTlsUpload.pollWrite_inv draw host)).framed

/-- A full relay buffer does not fit a record, nor does half of one fit beside the host
in a hello: a length is cut, and what is on the wire no longer carries the write. -/
theorem simple_obfs_tls_length_wraps :
    (¬ ∀ buf, FramedWrite "example.org" false buf (tlsObfsRecord buf)) ∧
      ¬ ∀ draw buf, FramedWrite "example.org" true buf (tlsObfsClientHello draw buf "example.org") := by
  constructor
  · intro h
    have hroom := (recordsCarry_iff _).mp (h (List.replicate 131072 0))
    rw [List.length_replicate] at hroom
    omega
  · intro h
    let draw : HelloDraw := ⟨0, Vector.replicate 28 0, Vector.replicate 32 0⟩
    have hroom : 212 + (List.replicate 65536 (0 : UInt8)).length + _ < 65536 :=
      (helloCarries_iff draw "example.org" _).mp (h draw (List.replicate 65536 0))
    rw [List.length_replicate] at hroom
    omega

end AtlasKernel.Shadowsocks
