import AtlasKernel.Shadowsocks.PendingWrite

/-! The download half of simple-obfs TLS: a resumable record reader, and the stream
that skips the server's fake handshake and hands out what follows.
Source: `shadowsocks/obfs.rs`. -/
namespace AtlasKernel.Shadowsocks
open AtlasKernel.Lib

/-- `header` is the part of the five-byte array that has been read. -/
structure TlsReadState where
  header : Bytes
  discardPayloadPrefix : Nat
  payloadRemaining : Option Nat
deriving DecidableEq, Repr

structure TlsRecord where
  contentType : UInt8
  payload : Bytes
deriving DecidableEq, Repr

namespace TlsReadState

def new (discardPayloadPrefix : Nat) : TlsReadState := ⟨[], discardPayloadPrefix, none⟩

def headerWant (st : TlsReadState) : Option Nat :=
  if st.header.length < 5 then some (5 - st.header.length) else none

def headerFeed (st : TlsReadState) (filled : Bytes) : TlsReadState :=
  { st with header := st.header ++ filled }

/-- The payload loop carries the local `output` next to the state. -/
def payloadWant (s : TlsReadState × Bytes) : Option Nat :=
  if 0 < s.1.payloadRemaining.getD 0 then some (min (s.1.payloadRemaining.getD 0) 8192) else none

def payloadFeed (s : TlsReadState × Bytes) (filled : Bytes) : TlsReadState × Bytes :=
  let discard := min s.1.discardPayloadPrefix filled.length
  ({ s.1 with
      payloadRemaining := some (s.1.payloadRemaining.getD 0 - filled.length)
      discardPayloadPrefix := s.1.discardPayloadPrefix - discard },
    s.2 ++ filled.drop discard)

/-- `payload_remaining.get_or_insert_with(..)`: the length field is read once. -/
def lengthRead (st : TlsReadState) : TlsReadState :=
  let length := ofBe16 (st.header.getD 3 0) (st.header.getD 4 0)
  { st with payloadRemaining := some (st.payloadRemaining.getD length) }

def pollReadRecord (st : TlsReadState) (stream : Source UInt8) :
    Poll (IoResult TlsRecord) × TlsReadState × Source UInt8 :=
  match readLoop headerWant headerFeed st stream with
  | (.pending, st, stream) => (.pending, st, stream)
  | (.failed err, st, stream) => (.ready (.error err), st, stream)
  | (.eof, st, stream) => (.ready (.error ⟨.unexpectedEof,
      "simple-obfs TLS frame ended before header"⟩), st, stream)
  | (.done, st, stream) =>
    if st.header.getD 0 0 ∉ [0x14, 0x16, 0x17] ∨ st.header.getD 1 0 ≠ 0x03 then
      (.ready (.error ⟨.invalidData, "simple-obfs TLS frame header is invalid"⟩), st, stream)
    else
      match readLoop payloadWant payloadFeed (st.lengthRead, []) stream with
      -- `output` is local to the call, so what it holds is gone here
      | (.pending, (st, _), stream) => (.pending, st, stream)
      | (.failed err, (st, _), stream) => (.ready (.error err), st, stream)
      | (.eof, (st, _), stream) => (.ready (.error ⟨.unexpectedEof,
          "simple-obfs TLS frame ended before payload"⟩), st, stream)
      | (.done, (st, output), stream) =>
        (.ready (.ok ⟨st.header.getD 0 0, output⟩), st, stream)

theorem pollReadRecord_size_le {st st' : TlsReadState} {stream stream' : Source UInt8}
    {r : Poll (IoResult TlsRecord)} (h : pollReadRecord st stream = (r, st', stream')) :
    sourceSize stream' ≤ sourceSize stream := by
  have hh := readLoop_size_le headerWant headerFeed st stream
  rw [pollReadRecord] at h
  split at h
  · cases h; simpa [*] using hh
  · cases h; simpa [*] using hh
  · cases h; simpa [*] using hh
  · rename_i st₁ stream₁ heq
    rw [heq] at hh
    split at h
    · cases h; exact hh
    · have hp := readLoop_size_le payloadWant payloadFeed (st₁.lengthRead, []) stream₁
      split at h <;> rename_i heq' <;> rw [heq'] at hp <;> cases h <;> exact Nat.le_trans hp hh

/-- A record from a fresh state has at least its header read. -/
theorem pollReadRecord_size_lt {discard : Nat} {st' : TlsReadState} {stream stream' : Source UInt8}
    {record : TlsRecord}
    (h : pollReadRecord (new discard) stream = (.ready (.ok record), st', stream')) :
    sourceSize stream' < sourceSize stream := by
  have hl := readLoop_size_lt headerWant headerFeed (new discard) stream
    (by simp [headerWant, new])
  unfold pollReadRecord at h
  split at h
  · cases h
  · cases h
  · cases h
  · rename_i st₁ stream₁ heq
    rw [heq] at hl
    split at h
    · cases h
    · have hp := readLoop_size_le payloadWant payloadFeed (st₁.lengthRead, []) stream₁
      split at h <;> rename_i heq' <;> rw [heq'] at hp <;> cases h
      exact Nat.lt_of_le_of_lt hp (hl rfl)

end TlsReadState

structure SimpleObfsTlsStream where
  inner : Source UInt8
  firstResponse : Bool
  readState : Option TlsReadState
  readBuffer : Bytes
deriving DecidableEq, Repr

namespace SimpleObfsTlsStream

def new (inner : Source UInt8) : SimpleObfsTlsStream := ⟨inner, true, none, []⟩

/-- The loop of `poll_read`: records of the fake handshake are skipped. -/
def recordLoop (s : SimpleObfsTlsStream) (room : Nat) :
    Poll (IoResult Bytes) × SimpleObfsTlsStream :=
  match _h : (s.readState.getD (.new 0)).pollReadRecord s.inner with
  | (.pending, st, inner) => (.pending, { s with inner := inner, readState := some st })
  | (.ready (.error err), _, inner) =>
    (.ready (.error err), { s with inner := inner, readState := none })
  | (.ready (.ok record), _, inner) =>
    if s.firstResponse ∧ record.contentType ≠ 0x17 then
      recordLoop { s with inner := inner, readState := none } room
    else
      let buffer := s.readBuffer ++ record.payload
      match drainBuffer buffer room with
      | some (out, rest) => (.ready (.ok out), ⟨inner, false, none, rest⟩)
      | none => (.ready (.ok []), ⟨inner, false, none, buffer⟩)
termination_by 2*sourceSize s.inner + if s.readState.isSome then 1 else 0
decreasing_by
  cases hs : s.readState with
  | none =>
    rw [hs] at _h
    have hlt := TlsReadState.pollReadRecord_size_lt _h
    simp
    omega
  | some st =>
    have hle := TlsReadState.pollReadRecord_size_le _h
    simp
    omega

def pollRead (s : SimpleObfsTlsStream) (room : Nat) :
    Poll (IoResult Bytes) × SimpleObfsTlsStream :=
  match drainBuffer s.readBuffer room with
  | some (out, rest) => (.ready (.ok out), { s with readBuffer := rest })
  | none => s.recordLoop room

end SimpleObfsTlsStream

/-- The upload half. -/
structure SimpleObfsTlsUpload where
  inner : Sink UInt8
  firstRequest : Bool
  pendingWrite : Option PendingWrite
deriving DecidableEq, Repr

/-- `tls_obfs_record` -/
def tlsObfsRecord (payload : Bytes) : Bytes := [0x17, 0x03, 0x03] ++ be16 payload.length ++ payload

/-- `hello` is `tls_obfs_client_hello` for this host. -/
def SimpleObfsTlsUpload.pollWrite (hello : Bytes → Bytes) (s : SimpleObfsTlsUpload) (buf : Bytes) :
    Poll (IoResult Nat) × SimpleObfsTlsUpload :=
  match takePending s.pendingWrite s.inner with
  | (some r, pending, inner) => (r, { s with inner := inner, pendingWrite := pending })
  | (none, _, inner) =>
    let packet := if s.firstRequest then hello buf else tlsObfsRecord buf
    let r := (PendingWrite.new packet buf.length).resume inner
    (r.1, ⟨r.2.2, false, r.2.1⟩)

/-! ## The stream of records -/

/-- A record on the wire, its payload within the length field. -/
structure WireRecord where
  contentType : UInt8
  minor : UInt8
  payload : Bytes
  fits : payload.length < 65536
deriving DecidableEq, Repr

namespace WireRecord

def header (r : WireRecord) : Bytes := [r.contentType, 0x03, r.minor] ++ be16 r.payload.length

def bytes (r : WireRecord) : Bytes := r.header ++ r.payload

def isApplication (r : WireRecord) : Bool := r.contentType = 0x17

@[simp] theorem header_length (r : WireRecord) : r.header.length = 5 := rfl

@[simp] theorem bytes_length (r : WireRecord) : r.bytes.length = 5 + r.payload.length := by
  simp [bytes]

theorem bytes_take_header (r : WireRecord) {n : Nat} (h : n ≤ 5) :
    r.bytes.take n = r.header.take n := by
  rw [bytes, List.take_append_of_le_length (by simpa using h)]

theorem bytes_drop_header (r : WireRecord) : r.bytes.drop 5 = r.payload := by
  rw [bytes, List.drop_left' (by simp)]

end WireRecord

def wireBytes (records : List WireRecord) : Bytes := records.flatMap WireRecord.bytes

@[simp] theorem wireBytes_cons (r : WireRecord) (records : List WireRecord) :
    wireBytes (r :: records) = r.bytes ++ wireBytes records := rfl

/-- The payloads of the application records. -/
def appPayload (records : List WireRecord) : Bytes :=
  (records.filter WireRecord.isApplication).flatMap WireRecord.payload

/-- Position `n` lies inside the payload of an application record: part of it has been
read, and part has not. -/
def Inside : List WireRecord → Nat → Prop
  | [], _ => False
  | r :: records, n =>
    if n < r.bytes.length then r.isApplication ∧ 5 < n else Inside records (n - r.bytes.length)

theorem inside_next (r : WireRecord) {left : List WireRecord} {n : Nat} (h : Inside left n) :
    Inside (r :: left) (r.bytes.length+n) := by
  simp only [Inside, Nat.not_lt.mpr (Nat.le_add_right _ n), if_false, Nat.add_sub_cancel_left]
  exact h

instance Inside.decidable : (records : List WireRecord) → (n : Nat) → Decidable (Inside records n)
  | [], _ => .isFalse id
  | r :: records, n =>
    have := Inside.decidable records (n - r.bytes.length)
    inferInstanceAs (Decidable (if n < r.bytes.length then r.isApplication ∧ 5 < n
      else Inside records (n - r.bytes.length)))

/-! ## Reading one record -/

namespace TlsReadState

/-- The state after `k` bytes of a record. -/
def cut (r : WireRecord) (k : Nat) : TlsReadState :=
  ⟨r.header.take k, 0, if k < 5 then none else some (r.bytes.length - k)⟩

/-- The state belongs to position `k` of the records that are left. -/
def AtCut : List WireRecord → Nat → TlsReadState → Prop
  | [], k, st => k = 0 ∧ st = new 0
  | r :: _, k, st => k < r.bytes.length ∧ st = cut r k

theorem cut_lt (r : WireRecord) {k : Nat} (h : k < 5) :
    cut r k = ⟨r.header.take k,0,none⟩ := by simp [cut, h]

theorem cut_ge (r : WireRecord) {k : Nat} (h : 5 ≤ k) :
    cut r k = ⟨r.header,0,some (r.bytes.length - k)⟩ := by
  simp [cut, List.take_of_length_le (l:=r.header) h, Nat.not_lt.mpr h]

theorem atCut_fresh (left : List WireRecord) : AtCut left 0 (new 0) := by
  cases left with
  | nil => exact ⟨rfl,rfl⟩
  | cons r left => exact ⟨by rw [WireRecord.bytes_length]; omega,by simp [cut, new]⟩

/-- The bytes of a record at position `k`, as the stream that starts with it has them. -/
theorem wire_take (r : WireRecord) (left : List WireRecord) {k n : Nat}
    (h : k+n ≤ r.bytes.length) :
    ((wireBytes (r :: left)).drop k).take n = (r.bytes.drop k).take n := by
  rw [wireBytes_cons, List.drop_append_of_le_length (by omega),
    List.take_append_of_le_length (by rw [List.length_drop]; omega)]

theorem header_want (r : WireRecord) (j : Nat) (st : TlsReadState)
    (h : j ≤ 5 ∧ st = ⟨r.header.take j,0,none⟩) :
    (j = 5 ∧ headerWant st = none) ∨
    ∃ room, headerWant st = some room ∧ 0 < room ∧ j+room ≤ 5 := by
  obtain ⟨hj,rfl⟩ := h
  obtain hlt | rfl := Nat.lt_or_eq_of_le hj
  · refine .inr ⟨5-j,?_,by omega,by omega⟩
    simp [headerWant, Nat.min_eq_left hj, hlt]
  · exact .inl ⟨rfl,by simp [headerWant]⟩

theorem header_feed (r : WireRecord) (left : List WireRecord) (j : Nat) (st : TlsReadState)
    (p : Bytes) (h : j ≤ 5 ∧ st = ⟨r.header.take j,0,none⟩) (hle : j+p.length ≤ 5)
    (hp : p = ((wireBytes (r :: left)).drop j).take p.length) :
    j+p.length ≤ 5 ∧ headerFeed st p = ⟨r.header.take (j+p.length),0,none⟩ := by
  obtain ⟨hj,rfl⟩ := h
  rw [wire_take r left (by rw [WireRecord.bytes_length]; omega)] at hp
  refine ⟨hle,?_⟩
  have hcat : r.header.take j ++ p = r.header.take (j+p.length) := by
    rw [← r.bytes_take_header hj, ← r.bytes_take_header hle, List.take_add, ← hp]
  rw [headerFeed, hcat]

theorem header_cut {r : WireRecord} {left : List WireRecord} {src : Source UInt8} {k : Nat}
    (hk : k < 5) (ha : Ahead (wireBytes (r :: left)) (Inside (r :: left)) k src) :
    (∃ src', readLoop headerWant headerFeed (cut r k) src = (.done, ⟨r.header,0,none⟩, src') ∧
      Ahead (wireBytes (r :: left)) (Inside (r :: left)) 5 src') ∨
    (∃ k' src', readLoop headerWant headerFeed (cut r k) src = (.pending, cut r k', src') ∧
      k' < 5 ∧ Ahead (wireBytes (r :: left)) (Inside (r :: left)) k' src') ∨
    (∃ e st' src', readLoop headerWant headerFeed (cut r k) src = (.failed e, st', src') ∧
      sourceBytes src' ≠ []) := by
  have hstop : 5 ≤ (wireBytes (r :: left)).length := by simp; omega
  rw [cut_lt r hk]
  obtain ⟨st',src',hr,⟨_,rfl⟩,ha'⟩ | ⟨k',st',src',hr,⟨hk',rfl⟩,hlt,ha',_⟩ | hfail :=
    readLoop_ahead headerWant headerFeed 5 (fun j st => j ≤ 5 ∧ st = ⟨r.header.take j,0,none⟩)
      hstop (header_want r) (header_feed r left) ⟨Nat.le_of_lt hk,rfl⟩ ha
  · exact .inl ⟨src',hr,ha'⟩
  · exact .inr (.inl ⟨k',src',by rw [hr, cut_lt r hlt],hlt,ha'⟩)
  · exact .inr (.inr hfail)

/-- The payload loop at position `j`, entered at position `k`: `output` holds what this
call has read. -/
structure PayloadAt (r : WireRecord) (k j : Nat) (s : TlsReadState × Bytes) : Prop where
  header : 5 ≤ j
  entered : k ≤ j
  within : j ≤ r.bytes.length
  state : s = (cut r j, (r.bytes.take j).drop k)

theorem payload_want (r : WireRecord) (k j : Nat) (s : TlsReadState × Bytes)
    (h : PayloadAt r k j s) :
    (j = r.bytes.length ∧ payloadWant s = none) ∨
    ∃ room, payloadWant s = some room ∧ 0 < room ∧ j+room ≤ r.bytes.length := by
  obtain ⟨h5,_,hj,rfl⟩ := h
  rw [cut_ge r h5]
  obtain hlt | rfl := Nat.lt_or_eq_of_le hj
  · refine .inr ⟨min (r.bytes.length-j) 8192,?_,by omega,by omega⟩
    have hpos : 0 < r.bytes.length-j := by omega
    simp only [payloadWant, Option.getD_some, if_pos hpos]
  · exact .inl ⟨rfl,by simp [payloadWant]⟩

theorem payload_feed (r : WireRecord) (left : List WireRecord) (k j : Nat)
    (s : TlsReadState × Bytes) (p : Bytes) (h : PayloadAt r k j s)
    (hle : j+p.length ≤ r.bytes.length)
    (hp : p = ((wireBytes (r :: left)).drop j).take p.length) :
    PayloadAt r k (j+p.length) (payloadFeed s p) := by
  obtain ⟨h5,hkj,hj,rfl⟩ := h
  rw [wire_take r left hle] at hp
  refine ⟨by omega,by omega,hle,?_⟩
  have hcat : (r.bytes.take j).drop k ++ p = (r.bytes.take (j+p.length)).drop k := by
    rw [List.take_add, ← hp, List.drop_append_of_le_length (by simp at hj ⊢; omega)]
  rw [cut_ge r h5, cut_ge r (by omega : 5 ≤ j+p.length), payloadFeed]
  simp [hcat, Nat.sub_sub]

theorem payload_cut {r : WireRecord} {left : List WireRecord} {src : Source UInt8} {k : Nat}
    (h5 : 5 ≤ k) (hk : k ≤ r.bytes.length)
    (ha : Ahead (wireBytes (r :: left)) (Inside (r :: left)) k src) :
    (∃ src', readLoop payloadWant payloadFeed (cut r k, []) src =
        (.done, (cut r r.bytes.length, r.bytes.drop k), src') ∧
      Ahead (wireBytes (r :: left)) (Inside (r :: left)) r.bytes.length src') ∨
    (∃ k' out src', readLoop payloadWant payloadFeed (cut r k, []) src =
        (.pending, (cut r k', out), src') ∧ k' < r.bytes.length ∧
      Ahead (wireBytes (r :: left)) (Inside (r :: left)) k' src' ∧ ¬ Inside (r :: left) k') ∨
    (∃ e s' src', readLoop payloadWant payloadFeed (cut r k, []) src = (.failed e, s', src') ∧
      sourceBytes src' ≠ []) := by
  have hstop : r.bytes.length ≤ (wireBytes (r :: left)).length := by simp
  have hat : PayloadAt r k k (cut r k, []) := ⟨h5,Nat.le_refl k,hk,by simp⟩
  obtain ⟨s',src',hr,hs,ha'⟩ | ⟨k',s',src',hr,hs,hlt,ha',hin⟩ | hfail :=
    readLoop_ahead payloadWant payloadFeed r.bytes.length (PayloadAt r k) hstop
      (payload_want r k) (payload_feed r left k) hat ha
  · refine .inl ⟨src',?_,ha'⟩
    rw [hr, hs.state, List.take_length]
  · refine .inr (.inl ⟨k',(r.bytes.take k').drop k,src',?_,hlt,ha',hin⟩)
    rw [hr, hs.state]
  · exact .inr (.inr hfail)

/-- The content types the reader lets through. -/
def Readable (r : WireRecord) : Prop := r.contentType ∈ [0x14, 0x16, 0x17]

theorem lengthRead_header (r : WireRecord) : lengthRead ⟨r.header,0,none⟩ = cut r 5 := by
  have hlen := ofBe16_of_lt r.fits
  rw [cut_ge r (Nat.le_refl 5), r.bytes_length, Nat.add_sub_cancel_left]
  simpa [lengthRead, WireRecord.header, be16] using hlen

theorem not_inside_start (left : List WireRecord) : ¬ Inside left 0 := by
  cases left with
  | nil => exact id
  | cons r left => simp [Inside]

theorem not_inside_header (r : WireRecord) (left : List WireRecord) {k : Nat} (h : k ≤ 5) :
    ¬ Inside (r :: left) k := by
  have hlt : 5 ≤ r.bytes.length := by simp
  unfold Inside
  split
  · omega
  · obtain rfl : k = r.bytes.length := by omega
    rw [Nat.sub_self]
    exact not_inside_start left

/-- The payload half of a call, at a position behind the header. -/
theorem payload_result {r : WireRecord} {left : List WireRecord} {src : Source UInt8} {k : Nat}
    (htype : Readable r) (h5 : 5 ≤ k) (hk : k ≤ r.bytes.length) {st : TlsReadState}
    {src₀ : Source UInt8} {st₁ : TlsReadState}
    (hhead : readLoop headerWant headerFeed st src₀ = (.done, st₁, src))
    (hheader : st₁.header = r.header) (hlen : st₁.lengthRead = cut r k)
    (ha : Ahead (wireBytes (r :: left)) (Inside (r :: left)) k src) :
    (∃ st' src', pollReadRecord st src₀ =
        (.ready (.ok ⟨r.contentType,r.bytes.drop k⟩), st', src') ∧
      Ahead (wireBytes left) (Inside left) 0 src') ∨
    (∃ k' st' src', pollReadRecord st src₀ = (.pending, st', src') ∧
      AtCut (r :: left) k' st' ∧ Ahead (wireBytes (r :: left)) (Inside (r :: left)) k' src' ∧
      ¬ Inside (r :: left) k') ∨
    (∃ e st' src', pollReadRecord st src₀ = (.ready (.error e), st', src') ∧
      sourceBytes src' ≠ []) := by
  have hok : ¬ (st₁.header.getD 0 0 ∉ [0x14, 0x16, 0x17] ∨ st₁.header.getD 1 0 ≠ 0x03) := by
    rw [hheader]
    exact fun h => h.elim (fun h => h htype) (fun h => h rfl)
  unfold pollReadRecord
  simp only [hhead, if_neg hok, hlen]
  obtain ⟨src',hr,ha'⟩ | ⟨k',out,src',hr,hlt,ha',hin⟩ | ⟨e,⟨st',out⟩,src',hr,hmore⟩ :=
    payload_cut h5 hk ha
  · refine .inl ⟨cut r r.bytes.length,src',?_,ha'.shift fun n => inside_next r⟩
    rw [hr, cut_ge r (by simp : 5 ≤ r.bytes.length)]
    rfl
  · exact .inr (.inl ⟨k',_,src',by rw [hr],⟨hlt,rfl⟩,ha',hin⟩)
  · exact .inr (.inr ⟨e,st',src',by rw [hr],hmore⟩)

/-- One call at a record: the record whole and the stream after it, or a stall at a
position on the way, or an error of the inner stream with bytes still to come. -/
theorem pollReadRecord_cut {r : WireRecord} {left : List WireRecord} {st : TlsReadState}
    {src : Source UInt8} {k : Nat} (htype : Readable r) (hst : AtCut (r :: left) k st)
    (ha : Ahead (wireBytes (r :: left)) (Inside (r :: left)) k src) :
    (∃ st' src', pollReadRecord st src =
        (.ready (.ok ⟨r.contentType,r.bytes.drop (max k 5)⟩), st', src') ∧
      Ahead (wireBytes left) (Inside left) 0 src') ∨
    (∃ k' st' src', pollReadRecord st src = (.pending, st', src') ∧ AtCut (r :: left) k' st' ∧
      Ahead (wireBytes (r :: left)) (Inside (r :: left)) k' src' ∧ ¬ Inside (r :: left) k') ∨
    (∃ e st' src', pollReadRecord st src = (.ready (.error e), st', src') ∧
      sourceBytes src' ≠ []) := by
  obtain ⟨hk,rfl⟩ := hst
  by_cases h5 : k < 5
  · obtain ⟨src',hr,ha'⟩ | ⟨k',src',hr,hk',ha'⟩ | ⟨e,st',src',hr,hmore⟩ := header_cut h5 ha
    · rw [Nat.max_eq_right (Nat.le_of_lt h5)]
      exact payload_result htype (Nat.le_refl 5) (by simp) hr rfl (lengthRead_header r) ha'
    · refine .inr (.inl ⟨k',cut r k',src',?_,⟨by simp; omega,rfl⟩,ha',
        not_inside_header r left (Nat.le_of_lt hk')⟩)
      rw [pollReadRecord, hr]
    · refine .inr (.inr ⟨e,st',src',?_,hmore⟩)
      rw [pollReadRecord, hr]
  · have hge : 5 ≤ k := by omega
    rw [Nat.max_eq_left hge]
    have hcut := cut_ge r hge
    have hdone : headerWant (cut r k) = none := by simp [hcut, headerWant]
    exact payload_result htype hge (Nat.le_of_lt hk) (readLoop_done headerFeed src hdone)
      (by rw [hcut]) (by simp [hcut, lengthRead]) ha

/-- After the last record a call stalls or reports an error. -/
theorem pollReadRecord_end {src : Source UInt8} {Bad : Nat → Prop} (ha : Ahead [] Bad 0 src) :
    (∃ src', pollReadRecord (new 0) src = (.pending, new 0, src') ∧ Ahead [] Bad 0 src') ∨
    (∃ e st' src', pollReadRecord (new 0) src = (.ready (.error e), st', src')) := by
  have hw : headerWant (new 0) = some 5 := rfl
  obtain ⟨rfl,hr⟩ | ⟨es,rfl,hr⟩ | ⟨e,es,rfl,hr⟩ | ⟨b,bs,es,_,_,rfl,_⟩ := pollRead_cases 5 src
  · refine .inr ⟨⟨.unexpectedEof,"simple-obfs TLS frame ended before header"⟩,new 0,[],?_⟩
    rw [pollReadRecord, readLoop_eof headerFeed hw hr]
  · refine .inl ⟨es,?_,ha.pending.1⟩
    rw [pollReadRecord, readLoop_pending headerFeed hw hr]
  · refine .inr ⟨e,new 0,es,?_⟩
    rw [pollReadRecord, readLoop_error headerFeed hw hr]
  · cases ha.rest

end TlsReadState

/-! ## Runs -/

namespace SimpleObfsTlsStream
open TlsReadState

/-- Behind the fake handshake every record that carries bytes is an application record. -/
def Tidy (records : List WireRecord) : Prop :=
  records.Pairwise fun r q => r.isApplication → q.isApplication ∨ q.payload = []

/-- The stream has handed on the application payloads of the records it has passed,
and stands at a position of the rest. -/
structure At (records : List WireRecord) (got : Bytes) (s : SimpleObfsTlsStream)
    (passed left : List WireRecord) (k : Nat) : Prop where
  split : records = passed ++ left
  handed : got ++ s.readBuffer = appPayload passed
  switched : s.firstResponse = false → ∃ r ∈ passed, r.isApplication
  state : AtCut left k (s.readState.getD (.new 0))
  ahead : Ahead (wireBytes left) (Inside left) k s.inner
  outside : ¬ Inside left k

theorem appPayload_append (xs ys : List WireRecord) :
    appPayload (xs ++ ys) = appPayload xs ++ appPayload ys := by
  simp [appPayload]

theorem appPayload_app {r : WireRecord} (h : r.isApplication) : appPayload [r] = r.payload := by
  simp [appPayload, h]

theorem appPayload_skip {r : WireRecord} (h : r.isApplication = false) : appPayload [r] = [] := by
  simp [appPayload, h]

theorem recordLoop_pending {s : SimpleObfsTlsStream} {st : TlsReadState} {src : Source UInt8}
    (room : Nat) (h : (s.readState.getD (.new 0)).pollReadRecord s.inner = (.pending, st, src)) :
    s.recordLoop room = (.pending, { s with inner := src, readState := some st }) := by
  rw [recordLoop]; split <;> simp_all

theorem recordLoop_error {s : SimpleObfsTlsStream} {e : IoError} {st : TlsReadState}
    {src : Source UInt8} (room : Nat)
    (h : (s.readState.getD (.new 0)).pollReadRecord s.inner = (.ready (.error e), st, src)) :
    s.recordLoop room = (.ready (.error e), { s with inner := src, readState := none }) := by
  rw [recordLoop]; split <;> simp_all

theorem recordLoop_skip {s : SimpleObfsTlsStream} {record : TlsRecord} {st : TlsReadState}
    {src : Source UInt8} (room : Nat)
    (h : (s.readState.getD (.new 0)).pollReadRecord s.inner = (.ready (.ok record), st, src))
    (hskip : s.firstResponse ∧ record.contentType ≠ 0x17) :
    s.recordLoop room = recordLoop { s with inner := src, readState := none } room := by
  conv_lhs => rw [recordLoop]
  split <;> simp_all

theorem recordLoop_take {s : SimpleObfsTlsStream} {record : TlsRecord} {st : TlsReadState}
    {src : Source UInt8} {room : Nat} (hroom : 0 < room) (hbuf : s.readBuffer = [])
    (h : (s.readState.getD (.new 0)).pollReadRecord s.inner = (.ready (.ok record), st, src))
    (hskip : ¬ (s.firstResponse ∧ record.contentType ≠ 0x17)) :
    ∃ out rest, out ++ rest = record.payload ∧
      s.recordLoop room = (.ready (.ok out), ⟨src,false,none,rest⟩) := by
  refine ⟨record.payload.take room,record.payload.drop room,List.take_append_drop ..,?_⟩
  rw [recordLoop]
  split
  · simp_all
  · simp_all
  · rename_i heq
    cases h.symm.trans heq
    simp only [if_neg hskip, hbuf, List.nil_append]
    by_cases hp : record.payload = []
    · simp [drainBuffer, hp]
    · simp [drainBuffer, hp, Nat.ne_of_gt hroom]

theorem not_first {s : SimpleObfsTlsStream} {r : WireRecord} (happ : ¬ r.isApplication)
    (hskip : ¬ (s.firstResponse ∧ r.contentType ≠ 0x17)) : s.firstResponse = false := by
  by_cases hf : s.firstResponse
  · exact absurd ⟨hf,by simpa [WireRecord.isApplication] using happ⟩ hskip
  · simpa using hf

/-- The bytes taken from a record are its application payload: an application record
is read whole in one call, any other record behind the handshake is empty. -/
theorem taken_payload {records passed left : List WireRecord} {r : WireRecord} {k : Nat}
    {s : SimpleObfsTlsStream} (htidy : Tidy records) (hsplit : records = passed ++ r :: left)
    (hk : k < r.bytes.length) (hout : ¬ Inside (r :: left) k)
    (hskip : ¬ (s.firstResponse ∧ r.contentType ≠ 0x17))
    (hsw : s.firstResponse = false → ∃ q ∈ passed, q.isApplication) :
    r.bytes.drop (max k 5) = appPayload [r] := by
  by_cases happ : r.isApplication
  · have h5 : k ≤ 5 := by
      by_contra h5
      exact hout (by simpa only [Inside, if_pos hk] using ⟨happ,by omega⟩)
    rw [Nat.max_eq_right h5, r.bytes_drop_header, appPayload_app happ]
  · obtain ⟨q,hq,hqa⟩ := hsw (not_first happ hskip)
    rw [hsplit, Tidy, List.pairwise_append] at htidy
    have hempty : r.payload = [] :=
      (htidy.2.2 q hq r List.mem_cons_self hqa).resolve_left happ
    rw [appPayload_skip (by simpa using happ), List.drop_eq_nil_iff, r.bytes_length, hempty]
    exact Nat.le_max_right k 5

/-- How one call that needs a record ends. -/
theorem recordLoop_at {records : List WireRecord} (htypes : ∀ r ∈ records, Readable r)
    (htidy : Tidy records) {room : Nat} (hroom : 0 < room) {got : Bytes}
    {s : SimpleObfsTlsStream} {passed left : List WireRecord} {k : Nat}
    (hbuf : s.readBuffer = []) (h : At records got s passed left k) :
    (∃ out s' passed' left', s.recordLoop room = (.ready (.ok out), s') ∧
      At records (got ++ out) s' passed' left' 0) ∨
    (∃ s' passed' left' k', s.recordLoop room = (.pending, s') ∧
      At records got s' passed' left' k') ∨
    (∃ e s' passed' left', s.recordLoop room = (.ready (.error e), s') ∧
      records = passed' ++ left' ∧ got = appPayload passed' ∧
        (left' = [] ∨ sourceBytes s'.inner ≠ [])) := by
  induction left generalizing s passed k with
  | nil =>
    obtain ⟨hsplit,hgot,hsw,⟨rfl,hst⟩,ha,hout⟩ := h
    rw [hbuf, List.append_nil] at hgot
    have hend := TlsReadState.pollReadRecord_end ha
    rw [← hst] at hend
    obtain ⟨src',hr,ha'⟩ | ⟨e,st',src',hr⟩ := hend
    · refine .inr (.inl ⟨_,passed,[],0,recordLoop_pending room hr,hsplit,?_,hsw,⟨rfl,hst⟩,ha',hout⟩)
      simpa [hbuf] using hgot
    · exact .inr (.inr ⟨e,_,passed,[],recordLoop_error room hr,hsplit,hgot,.inl rfl⟩)
  | cons r left ih =>
    obtain ⟨hsplit,hgot,hsw,hst,ha,hout'⟩ := h
    rw [hbuf, List.append_nil] at hgot
    have hmem : r ∈ records := hsplit ▸ List.mem_append_right _ List.mem_cons_self
    have hsplit' : records = (passed ++ [r]) ++ left := by simpa using hsplit
    obtain ⟨st',src',hr,ha'⟩ | ⟨k',st',src',hr,hst',ha',hk'⟩ | ⟨e,st',src',hr,hmore⟩ :=
      TlsReadState.pollReadRecord_cut (htypes r hmem) hst ha
    · by_cases hskip : s.firstResponse ∧ r.contentType ≠ 0x17
      · -- a record of the fake handshake: the loop goes on with the next one
        have hno : r.isApplication = false := by simpa [WireRecord.isApplication] using hskip.2
        have hnext : At records got { s with inner := src', readState := none }
            (passed ++ [r]) left 0 := by
          refine ⟨hsplit',?_,?_,TlsReadState.atCut_fresh left,ha',?_⟩
          · simp [hbuf, hgot, appPayload_append, appPayload_skip hno]
          · intro hf
            simp [hskip.1] at hf
          · exact TlsReadState.not_inside_start left
        rw [recordLoop_skip room hr hskip]
        exact ih hbuf hnext
      · obtain ⟨out,rest,hout,hr'⟩ := recordLoop_take hroom hbuf hr hskip
        refine .inl ⟨out,_,passed++[r],left,hr',hsplit',?_,?_,TlsReadState.atCut_fresh left,ha',?_⟩
        · rw [List.append_assoc, hout, hgot, appPayload_append]
          exact congrArg _ (taken_payload htidy hsplit hst.1 hout' hskip hsw)
        · intro _
          by_cases happ : r.isApplication
          · exact ⟨r,by simp,happ⟩
          · obtain ⟨q,hq,hqa⟩ := hsw (not_first happ hskip)
            exact ⟨q,List.mem_append_left _ hq,hqa⟩
        · exact TlsReadState.not_inside_start left
    · refine .inr (.inl ⟨_,passed,r::left,k',recordLoop_pending room hr,hsplit,?_,hsw,hst',ha',hk'⟩)
      simpa [hbuf] using hgot
    · exact .inr (.inr ⟨e,_,passed,r::left,recordLoop_error room hr,hsplit,hgot,.inr hmore⟩)

/-- What a reader has got is always a beginning of the application payloads, and all of
them once every byte of the stream is read and handed on. -/
def DownloadExact (records : List WireRecord) (s : ReadSession SimpleObfsTlsStream UInt8) :
    Prop :=
  s.delivered <+: appPayload records ∧
  (sourceBytes s.stream.inner = [] → s.stream.readBuffer = [] → s.delivered = appPayload records)

instance (records : List WireRecord) (s : ReadSession SimpleObfsTlsStream UInt8) :
    Decidable (DownloadExact records s) :=
  inferInstanceAs (Decidable (_ ∧ (_ → _ → _)))

/-- Until an error the stream stands at a position of the records. -/
def Inv (records : List WireRecord) (s : ReadSession SimpleObfsTlsStream UInt8) : Prop :=
  (s.failed = false → ∃ passed left k, At records s.delivered s.stream passed left k) ∧
  DownloadExact records s

theorem At.exact {records : List WireRecord} {st : SimpleObfsTlsStream} {got : Bytes}
    {last : Option (Poll (IoResult Bytes))} {passed left : List WireRecord} {k : Nat}
    (h : At records got st passed left k) : DownloadExact records ⟨st,got,last⟩ := by
  have happ : appPayload records = got ++ (st.readBuffer ++ appPayload left) := by
    rw [h.split, appPayload_append, ← h.handed, List.append_assoc]
  refine ⟨⟨_,happ.symm⟩,?_⟩
  intro hsrc hbuf
  have hleft : left = [] := by
    cases left with
    | nil => rfl
    | cons r left =>
      have hrest : (wireBytes (r :: left)).drop k = [] := h.ahead.rest.symm.trans hsrc
      have hk : k < r.bytes.length := h.state.1
      rw [List.drop_eq_nil_iff, wireBytes_cons, List.length_append] at hrest
      omega
  subst hleft
  have hbuf' : st.readBuffer = [] := hbuf
  simpa [hbuf', appPayload] using happ.symm

theorem pollRead_inv {records : List WireRecord} (htypes : ∀ r ∈ records, Readable r)
    (htidy : Tidy records) (s : ReadSession SimpleObfsTlsStream UInt8) (room : Nat)
    (h : Inv records s) (hopen : s.failed = false) (hroom : 0 < room) :
    Inv records (s.read pollRead room) := by
  obtain ⟨st,got,last⟩ := s
  obtain ⟨passed,left,k,hat⟩ := h.1 hopen
  unfold ReadSession.read pollRead
  cases hd : drainBuffer st.readBuffer room with
  | some r =>
    obtain ⟨out,rest⟩ := r
    have hat' : At records (got ++ out) { st with readBuffer := rest } passed left k := by
      refine ⟨hat.split,?_,hat.switched,hat.state,hat.ahead,hat.outside⟩
      rw [List.append_assoc, (drainBuffer_some hd).1]
      exact hat.handed
    exact ⟨fun _ => ⟨passed,left,k,hat'⟩,hat'.exact⟩
  | none =>
    have hbuf : st.readBuffer = [] :=
      (drainBuffer_none hd).resolve_right (Nat.ne_of_gt hroom)
    obtain ⟨out,st',passed',left',hr,hat'⟩ | ⟨st',passed',left',k',hr,hat'⟩ |
      ⟨e,st',passed',left',hr,hsplit,hgot,hmore⟩ := recordLoop_at htypes htidy hroom hbuf hat
    · rw [hr]
      exact ⟨fun _ => ⟨passed',left',0,hat'⟩,hat'.exact⟩
    · rw [hr]
      exact ⟨fun _ => ⟨passed',left',k',hat'⟩,hat'.exact⟩
    · rw [hr]
      refine ⟨nofun,?_,?_⟩
      · exact ⟨appPayload left',by rw [hsplit, appPayload_append, ← hgot]; rfl⟩
      · intro hsrc _
        obtain rfl | hne := hmore
        · rw [hsplit, List.append_nil]
          exact hgot
        · exact absurd hsrc hne

/-- The server's handshake record, then two application records. -/
def sample : List WireRecord :=
  [⟨0x16, 1, [9, 9], by decide⟩, ⟨0x17, 3, [1, 2], by decide⟩, ⟨0x17, 3, [3], by decide⟩]

end SimpleObfsTlsStream

end AtlasKernel.Shadowsocks
