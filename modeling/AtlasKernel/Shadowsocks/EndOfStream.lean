import AtlasKernel.Shadowsocks.WakeUps

/-! What the stream adapters make of units without bytes, and of the end of their inner
stream: to every caller a read of no bytes is the end. Source: `H2Transport` and
`WebSocketTransport` in `shadowsocks/transport.rs`, `SimpleObfsTlsStream` in
`shadowsocks/obfs.rs`. -/
namespace AtlasKernel.Shadowsocks
open AtlasKernel.Lib AtlasKernel.H2

/-- The states a reader with room in its buffer reaches before an error. -/
inductive Reaches {σ ε : Type*} (poll : σ → Nat → Poll (Except ε Bytes) × σ) (st₀ : σ) :
    σ → Prop where
  | start : Reaches poll st₀ st₀
  | read {st : σ} (room : Nat) : Reaches poll st₀ st → 0 < room →
    (∀ err, (poll st room).1 ≠ .ready (.error err)) → Reaches poll st₀ (poll st room).2

/-- A read of no bytes stands for the end of the stream, and for nothing else. -/
def ReportsEnd {ε : Type*} (answer : Poll (Except ε Bytes)) (ended : Prop) : Prop :=
  answer = .ready (.ok []) ↔ ended

theorem drainBuffer_nil (room : Nat) : drainBuffer [] room = none := by simp [drainBuffer]

theorem drainBuffer_pos {buffer : Bytes} {room : Nat} (hbuffer : buffer ≠ []) (hroom : 0 < room) :
    drainBuffer buffer room = some (buffer.take room, buffer.drop room) := by
  simp [drainBuffer, hbuffer, Nat.ne_of_gt hroom]

/-! ## HTTP/2 -/

namespace H2Stream

def EndsHere (s : H2Stream) : Prop := s.readBuffer = [] ∧ s.recv = []

/-- An empty DATA frame is what comes next. -/
def TakesEmpty (s : H2Stream) : Prop := s.readBuffer = [] ∧ s.recv.head? = some (.data [])

theorem pollRead_reportsEnd_iff (s : H2Stream) {room : Nat} (hroom : 0 < room) :
    ReportsEnd (s.pollRead answerData room).1 s.EndsHere ↔ ¬ s.TakesEmpty := by
  obtain ⟨recv,send,buffer,capacity,closed⟩ := s
  unfold ReportsEnd EndsHere TakesEmpty H2Transport.pollRead
  by_cases hbuffer : buffer = []
  · subst hbuffer
    simp only [drainBuffer_nil]
    cases recv with
    | nil => simp [answerData]
    | cons answer as =>
      cases answer with
      | pending => simp [answerData]
      | fail err => simp [answerData]
      | data data =>
        by_cases hfits : data.length ≤ room
        · simp [answerData, hfits]
        · have hne : data ≠ [] := by
            rintro rfl
            simp at hfits
          simp [answerData, hfits, hne, Nat.ne_of_gt hroom]
  · simp [drainBuffer_pos hbuffer hroom, hbuffer, Nat.ne_of_gt hroom]

end H2Stream

/-! ## WebSocket -/

/-- Text, pings and pongs carry nothing for the stream. -/
inductive Message where
  | binary (data : Bytes)
  | close
  | other
deriving DecidableEq, Repr

/-- What the inner stream answers; after the last answer it has ended. -/
inductive MessageAnswer where
  | pending
  | message (message : Message)
  | fail (err : IoError)
deriving DecidableEq, Repr

structure WebSocketTransport where
  inner : List MessageAnswer
  readBuffer : Bytes
deriving DecidableEq, Repr

namespace WebSocketTransport

def new (inner : List MessageAnswer) : WebSocketTransport := ⟨inner, []⟩

/-- The loop of `poll_read`. -/
def messageLoop (room : Nat) (buffer : Bytes) :
    List MessageAnswer → Poll (Except TransportError Bytes) × WebSocketTransport
  | [] => (.ready (.ok []), ⟨[], buffer⟩)
  | .pending :: as => (.pending, ⟨as, buffer⟩)
  | .fail err :: as => (.ready (.error (.connectionAborted err)), ⟨as, buffer⟩)
  | .message (.binary data) :: as =>
    if data.length ≤ room then (.ready (.ok data), ⟨as, buffer⟩)
    else (.ready (.ok (data.take room)), ⟨as, buffer ++ data.drop room⟩)
  | .message .close :: as => (.ready (.ok []), ⟨as, buffer⟩)
  | .message .other :: as => messageLoop room buffer as

def pollRead (s : WebSocketTransport) (room : Nat) :
    Poll (Except TransportError Bytes) × WebSocketTransport :=
  match drainBuffer s.readBuffer room with
  | some (out, rest) => (.ready (.ok out), { s with readBuffer := rest })
  | none => messageLoop room s.readBuffer s.inner

/-- What comes next behind the messages that carry nothing. -/
def next (inner : List MessageAnswer) : Option MessageAnswer :=
  (inner.dropWhile (· = .message .other)).head?

/-- The peer has closed the stream, or there is nothing behind it. -/
def EndsHere (s : WebSocketTransport) : Prop :=
  s.readBuffer = [] ∧ (next s.inner = none ∨ next s.inner = some (.message .close))

/-- An empty message is what comes next. -/
def TakesEmpty (s : WebSocketTransport) : Prop :=
  s.readBuffer = [] ∧ next s.inner = some (.message (.binary []))

theorem messageLoop_reportsEnd_iff {room : Nat} (hroom : 0 < room) (inner : List MessageAnswer) :
    (messageLoop room [] inner).1 = .ready (.ok []) ↔
      next inner = none ∨ next inner = some (.message .close) ∨
        next inner = some (.message (.binary [])) := by
  induction inner with
  | nil => simp [messageLoop, next]
  | cons answer as ih =>
    cases answer with
    | pending => simp [messageLoop, next]
    | fail err => simp [messageLoop, next]
    | message message =>
      cases message with
      | close => simp [messageLoop, next]
      | other =>
        have hnext : next (.message .other :: as) = next as := by simp [next]
        rw [messageLoop, hnext]
        exact ih
      | binary data =>
        by_cases hfits : data.length ≤ room
        · simp [messageLoop, next, hfits]
        · have hne : data ≠ [] := by
            rintro rfl
            simp at hfits
          simp [messageLoop, next, hfits, hne, Nat.ne_of_gt hroom]

theorem pollRead_reportsEnd_iff (s : WebSocketTransport) {room : Nat} (hroom : 0 < room) :
    ReportsEnd (s.pollRead room).1 s.EndsHere ↔ ¬ s.TakesEmpty := by
  obtain ⟨inner,buffer⟩ := s
  unfold ReportsEnd EndsHere TakesEmpty pollRead
  by_cases hbuffer : buffer = []
  · subst hbuffer
    simp only [drainBuffer_nil, messageLoop_reportsEnd_iff hroom]
    constructor
    · rintro h ⟨_,hempty⟩
      have hend := h.mp (.inr (.inr hempty))
      simp [hempty] at hend
    · intro h
      constructor
      · rintro (hnone | hclose | hempty)
        · exact ⟨trivial,.inl hnone⟩
        · exact ⟨trivial,.inr hclose⟩
        · exact absurd ⟨trivial,hempty⟩ h
      · rintro ⟨_,hnone | hclose⟩
        · exact .inl hnone
        · exact .inr (.inl hclose)
  · simp [drainBuffer_pos hbuffer hroom, hbuffer, Nat.ne_of_gt hroom]

end WebSocketTransport

/-! ## Simple-obfs TLS -/

/-- The bytes that reads hand out before anything else happens. -/
def arrived : Source UInt8 → Bytes
  | .segment b bs :: src => b :: (bs ++ arrived src)
  | _ => []

/-- The inner stream ends behind them. -/
def closesBehind : Source UInt8 → Bool
  | [] => true
  | .segment _ _ :: src => closesBehind src
  | _ => false

theorem arrived_read {room : Nat} {src src' : Source UInt8} {p : Bytes}
    (h : pollRead room src = (.ready (.ok p), src')) :
    arrived src = p ++ arrived src' ∧ closesBehind src = closesBehind src' := by
  cases src with
  | nil => cases h; exact ⟨rfl,rfl⟩
  | cons event src =>
    cases event with
    | pending => cases h
    | fail err => cases h
    | segment b bs =>
      simp only [pollRead] at h
      cases hdrop : (b :: bs).drop room with
      | nil =>
        rw [hdrop] at h
        cases h
        exact ⟨rfl,rfl⟩
      | cons c cs =>
        have hsplit : (b :: bs).take room ++ (c :: cs) = b :: bs := by
          rw [← hdrop, List.take_append_drop]
        rw [hdrop] at h
        cases h
        refine ⟨?_,rfl⟩
        calc
          arrived (.segment b bs :: src) = (b :: bs) ++ arrived src := rfl
          _ = ((b :: bs).take room ++ (c :: cs)) ++ arrived src := by rw [hsplit]
          _ = (b :: bs).take room ++ arrived (.segment c cs :: src) := List.append_assoc ..

/-- Where a loop of reads stops short of its aim, nothing more has arrived. -/
theorem arrived_stop {σ : Type*} {want : σ → Option Nat} {exit : ReadExit} {s : σ}
    {stop src : Source UInt8} (h : ReadStop want exit s stop src) (hne : exit ≠ .done)
    (hpos : want s ≠ some 0) : arrived stop = [] := by
  cases h with
  | done => exact absurd rfl hne
  | pending | failed => rfl
  | eof hwant hsrc =>
    obtain rfl | rfl := hsrc
    · rfl
    · exact absurd hwant hpos

structure RecordHead where
  contentType : UInt8
  length : Nat
deriving DecidableEq, Repr

def headerValid (header : Bytes) : Bool :=
  header.getD 0 0 ∈ [0x14, 0x16, 0x17] && header.getD 1 0 = 0x03

def headerLength (header : Bytes) : Nat := ofBe16 (header.getD 3 0) (header.getD 4 0)

/-- The whole records at the front of the bytes, and what is left behind them. -/
def splitRecords (bytes : Bytes) : List RecordHead × Bytes :=
  if bytes.length < 5 ∨ headerValid bytes = false ∨ bytes.length < 5 + headerLength bytes then
    ([], bytes)
  else
    let r := splitRecords (bytes.drop (5 + headerLength bytes))
    (⟨bytes.getD 0 0, headerLength bytes⟩ :: r.1, r.2)
termination_by bytes.length
decreasing_by
  rw [List.length_drop]
  omega

theorem splitRecords_stop {bytes : Bytes}
    (h : bytes.length < 5 ∨ headerValid bytes = false ∨ bytes.length < 5 + headerLength bytes) :
    splitRecords bytes = ([], bytes) := by
  rw [splitRecords, if_pos h]

theorem header_append {header : Bytes} (h : header.length = 5) (bytes : Bytes) :
    headerValid (header ++ bytes) = headerValid header ∧
      headerLength (header ++ bytes) = headerLength header ∧
      (header ++ bytes).getD 0 0 = header.getD 0 0 := by
  have hget {i : Nat} (hi : i < 5) : (header ++ bytes).getD i 0 = header.getD i 0 :=
    List.getD_append _ _ _ _ (h ▸ hi)
  refine ⟨?_,?_,hget (by decide)⟩
  · rw [headerValid, headerValid, hget (by decide), hget (by decide)]
  · rw [headerLength, headerLength, hget (by decide), hget (by decide)]

theorem splitRecords_record {header : Bytes} (h : header.length = 5)
    (hvalid : headerValid header = true) {payload : Bytes} (hlen : payload.length = headerLength header)
    (rest : Bytes) :
    splitRecords (header ++ (payload ++ rest)) =
      (⟨header.getD 0 0, headerLength header⟩ :: (splitRecords rest).1, (splitRecords rest).2) := by
  obtain ⟨hvalid',hlen',htype⟩ := header_append h (payload ++ rest)
  have hdrop : (header ++ (payload ++ rest)).drop (5 + headerLength header) = rest := by
    rw [← List.append_assoc]
    exact List.drop_left' (by simp [h, hlen])
  rw [splitRecords, if_neg, hlen', htype, hdrop]
  rw [hvalid', hlen', hvalid]
  simp [h, hlen]

namespace TlsReadState

/-- The records that are whole when these bytes have come, the one that is being read first. -/
def upcoming (st : TlsReadState) (bytes : Bytes) : List RecordHead × Bytes :=
  match st.payloadRemaining with
  | none => splitRecords (st.header ++ bytes)
  | some n =>
    if bytes.length < n then ([], st.header ++ bytes)
    else
      let r := splitRecords (bytes.drop n)
      (⟨st.header.getD 0 0, headerLength st.header⟩ :: r.1, r.2)

/-- Once the length is read, a part of the payload is still to come. -/
structure Valid (st : TlsReadState) : Prop where
  keeps : st.discardPayloadPrefix = 0
  short : st.header.length ≤ 5
  payload : ∀ n, st.payloadRemaining = some n →
    st.header.length = 5 ∧ headerValid st.header = true ∧ 0 < n ∧ headerLength st.header ≠ 0

theorem valid_new : Valid (new 0) := ⟨rfl,by simp [new],fun n h => by cases h⟩

/-- The header loop: what has come and what has arrived stay the same bytes. -/
structure HeaderAt (st₀ : TlsReadState) (src₀ : Source UInt8) (st : TlsReadState)
    (src : Source UInt8) : Prop where
  rest : st.payloadRemaining = st₀.payloadRemaining
  keeps : st.discardPayloadPrefix = st₀.discardPayloadPrefix
  short : st.header.length ≤ 5
  longer : st₀.header.length ≤ st.header.length
  bytes : st.header ++ arrived src = st₀.header ++ arrived src₀
  closes : closesBehind src = closesBehind src₀

theorem headerLoop_at {st : TlsReadState} (hv : Valid st) (src : Source UInt8) :
    ∃ stop, HeaderAt st src (readLoop headerWant headerFeed st src).2.1 stop ∧
      ReadStop headerWant (readLoop headerWant headerFeed st src).1
        (readLoop headerWant headerFeed st src).2.1 stop (readLoop headerWant headerFeed st src).2.2 := by
  refine readLoop_rule headerWant headerFeed (HeaderAt st src) ?_ st src
    ⟨rfl,rfl,hv.short,Nat.le_refl _,rfl,rfl⟩
  intro s src' room p src'' h hwant hread _
  obtain ⟨hbytes,hcloses⟩ := arrived_read hread
  obtain ⟨_,hroom,_⟩ := pollRead_ok hread
  have hlen : s.header.length < 5 ∧ room = 5 - s.header.length := by
    unfold headerWant at hwant
    split at hwant
    · next hlt => exact ⟨hlt,by cases hwant; rfl⟩
    · cases hwant
  have hfeed : (s.headerFeed p).header = s.header ++ p := rfl
  refine ⟨h.rest,h.keeps,?_,?_,?_,?_⟩
  · rw [hfeed, List.length_append]
    omega
  · have hlonger := h.longer
    rw [hfeed, List.length_append]
    omega
  · rw [hfeed, List.append_assoc, ← hbytes, h.bytes]
  · rw [← hcloses, h.closes]

theorem headerWant_pos (st : TlsReadState) : headerWant st ≠ some 0 := by
  unfold headerWant
  split
  · intro h
    have hroom := Option.some.inj h
    omega
  · intro h
    cases h

/-- A header that stays incomplete begins no record. -/
theorem HeaderAt.stopped {st₀ st : TlsReadState} {src₀ stop src : Source UInt8} {exit : ReadExit}
    (h : HeaderAt st₀ src₀ st stop) (hv : Valid st₀) (hstop : ReadStop headerWant exit st stop src)
    (hne : exit ≠ .done) : (upcoming st₀ (arrived src₀)).1 = [] := by
  have harrived := arrived_stop hstop hne (headerWant_pos st)
  have hlt : st.header.length < 5 := by
    have hwant : headerWant st ≠ none := by
      cases hstop with
      | done => exact absurd rfl hne
      | pending hwant | failed hwant => simp [hwant]
      | eof hwant => simp [hwant]
    by_contra hge
    exact hwant (by simp [headerWant, hge])
  have hbytes := h.bytes
  rw [harrived, List.append_nil] at hbytes
  have hlonger := h.longer
  unfold upcoming
  cases hpayload : st₀.payloadRemaining with
  | some n =>
    have hfull := (hv.payload n hpayload).1
    omega
  | none =>
    rw [← hbytes]
    simp only [splitRecords_stop (.inl hlt)]

/-- The payload loop: `n` bytes are to come, and `out` has come. -/
structure PayloadFrom (header : Bytes) (n : Nat) (src₀ : Source UInt8) (s : TlsReadState × Bytes)
    (src : Source UInt8) : Prop where
  header : s.1.header = header
  keeps : s.1.discardPayloadPrefix = 0
  rest : ∃ m, s.1.payloadRemaining = some m ∧ s.2.length + m = n
  bytes : s.2 ++ arrived src = arrived src₀
  closes : closesBehind src = closesBehind src₀

theorem payloadLoop_from {st : TlsReadState} {n : Nat} (hn : st.payloadRemaining = some n)
    (hkeeps : st.discardPayloadPrefix = 0) (src : Source UInt8) :
    ∃ stop, PayloadFrom st.header n src (readLoop payloadWant payloadFeed (st, []) src).2.1 stop ∧
      ReadStop payloadWant (readLoop payloadWant payloadFeed (st, []) src).1
        (readLoop payloadWant payloadFeed (st, []) src).2.1 stop
        (readLoop payloadWant payloadFeed (st, []) src).2.2 := by
  refine readLoop_rule payloadWant payloadFeed (PayloadFrom st.header n src) ?_ (st, []) src
    ⟨rfl,hkeeps,⟨n,hn,by simp⟩,rfl,rfl⟩
  rintro ⟨s,out⟩ src' room p src'' ⟨hheader,hzero,⟨m,hm,hsum⟩,hbytes,hcloses⟩ hwant hread _
  obtain ⟨hread',hcloses'⟩ := arrived_read hread
  obtain ⟨_,hroom,_⟩ := pollRead_ok hread
  have hle : room ≤ m := by
    unfold payloadWant at hwant
    dsimp only at hm hwant
    rw [hm] at hwant
    split at hwant
    · cases hwant
      exact Nat.min_le_left ..
    · cases hwant
  have hfeed : payloadFeed (s, out) p =
      ({ s with payloadRemaining := some (m - p.length) }, out ++ p) := by
    dsimp only at hm hzero
    simp [payloadFeed, hm, hzero]
  rw [hfeed]
  refine ⟨hheader,hzero,⟨m - p.length,rfl,?_⟩,?_,?_⟩
  · dsimp only at hsum ⊢
    rw [List.length_append]
    omega
  · dsimp only at hbytes ⊢
    rw [List.append_assoc, ← hread', hbytes]
  · rw [← hcloses', hcloses]

theorem payloadWant_pos (s : TlsReadState × Bytes) : payloadWant s ≠ some 0 := by
  unfold payloadWant
  split
  · intro h
    have hroom := Option.some.inj h
    omega
  · intro h
    cases h

/-- Where the payload loop ends: with all `n` bytes, or with part of them and nothing more
that has arrived. -/
theorem PayloadFrom.stopped {header : Bytes} {n : Nat} {src₀ stop src : Source UInt8}
    {s : TlsReadState × Bytes} {exit : ReadExit} (h : PayloadFrom header n src₀ s stop)
    (hstop : ReadStop payloadWant exit s stop src) :
    (exit = .done ∧ s.2.length = n ∧ arrived src₀ = s.2 ++ arrived src ∧
      closesBehind src = closesBehind src₀) ∨
    (exit ≠ .done ∧ (arrived src₀).length < n ∧
      ∃ m, 0 < m ∧ s.1.payloadRemaining = some m) := by
  obtain ⟨m,hm,hsum⟩ := h.rest
  have hwant : payloadWant s = none ↔ m = 0 := by
    unfold payloadWant
    rw [hm]
    dsimp only [Option.getD_some]
    split <;> simp <;> omega
  by_cases hdone : exit = .done
  · subst hdone
    have hnone : payloadWant s = none ∧ stop = src := by
      cases hstop with
      | done hwant => exact ⟨hwant,rfl⟩
    obtain ⟨hnone,rfl⟩ := hnone
    have hzero := hwant.mp hnone
    exact .inl ⟨rfl,by omega,h.bytes.symm,h.closes⟩
  · have harrived := arrived_stop hstop hdone (payloadWant_pos s)
    have hpos : m ≠ 0 := by
      intro hzero
      have hnone := hwant.mpr hzero
      cases hstop with
      | done => exact hdone rfl
      | pending hsome | failed hsome => cases hnone.symm.trans hsome
      | eof hsome => cases hnone.symm.trans hsome
    have hbytes := congrArg List.length h.bytes
    rw [harrived, List.append_nil] at hbytes
    exact .inr ⟨hdone,by omega,m,by omega,hm⟩

/-- Once the header is there, the length tells which record comes next. -/
theorem upcoming_read {st : TlsReadState} (hv : Valid st) (hfull : st.header.length = 5)
    (hvalid : headerValid st.header = true) (bytes : Bytes) :
    ∃ n, st.lengthRead.payloadRemaining = some n ∧ (n = 0 ↔ headerLength st.header = 0) ∧
      upcoming st bytes =
        if bytes.length < n then ([], st.header ++ bytes)
        else (⟨st.header.getD 0 0, headerLength st.header⟩ :: (splitRecords (bytes.drop n)).1,
          (splitRecords (bytes.drop n)).2) := by
  unfold upcoming lengthRead
  cases hpayload : st.payloadRemaining with
  | some n =>
    obtain ⟨_,_,hpos,hlen⟩ := hv.payload n hpayload
    exact ⟨n,rfl,by omega,rfl⟩
  | none =>
    refine ⟨headerLength st.header,rfl,Iff.rfl,?_⟩
    obtain ⟨_,hlen,_⟩ := header_append hfull bytes
    dsimp only
    split
    · next hlt =>
      rw [splitRecords_stop]
      rw [hlen, List.length_append, hfull]
      omega
    · next hge =>
      have htake : (bytes.take (headerLength st.header)).length = headerLength st.header :=
        List.length_take_of_le (Nat.le_of_not_lt hge)
      have hrecord := splitRecords_record hfull hvalid htake (bytes.drop (headerLength st.header))
      rw [List.take_append_drop] at hrecord
      exact hrecord

theorem HeaderAt.valid {st₀ st : TlsReadState} {src₀ src : Source UInt8}
    (h : HeaderAt st₀ src₀ st src) (hv : Valid st₀) : Valid st := by
  refine ⟨h.keeps.trans hv.keeps,h.short,?_⟩
  intro n hn
  obtain ⟨hfull,hvalid,hpos,hlen⟩ := hv.payload n (h.rest ▸ hn)
  have hsame : st.header.length = st₀.header.length := by
    have hshort := h.short
    have hlonger := h.longer
    omega
  obtain ⟨hheader,_⟩ := List.append_inj h.bytes hsame
  rw [hheader]
  exact ⟨hfull,hvalid,hpos,hlen⟩

theorem HeaderAt.upcoming {st₀ st : TlsReadState} {src₀ src : Source UInt8}
    (h : HeaderAt st₀ src₀ st src) (hv : Valid st₀) :
    st₀.upcoming (arrived src₀) = st.upcoming (arrived src) := by
  unfold TlsReadState.upcoming
  rw [h.rest, h.bytes]
  cases hpayload : st₀.payloadRemaining with
  | none => rfl
  | some n =>
    have hfull := (hv.payload n hpayload).1
    have hsame : st.header.length = st₀.header.length := by
      have hshort := h.short
      have hlonger := h.longer
      omega
    obtain ⟨hheader,harrived⟩ := List.append_inj h.bytes hsame
    rw [hheader, harrived]

theorem headerValid_iff (header : Bytes) :
    (header.getD 0 0 ∉ ([0x14, 0x16, 0x17] : Bytes) ∨ header.getD 1 0 ≠ 0x03) ↔
      headerValid header = false := by
  simp only [headerValid, Bool.and_eq_false_iff, decide_eq_false_iff_not]

/-- No record comes behind a header that is not one of a record. -/
theorem upcoming_invalid {st : TlsReadState} (hv : Valid st) (hfull : st.header.length = 5)
    (hinvalid : headerValid st.header = false) (bytes : Bytes) : (st.upcoming bytes).1 = [] := by
  unfold TlsReadState.upcoming
  cases hpayload : st.payloadRemaining with
  | none =>
    have hfront := (header_append hfull bytes).1.trans hinvalid
    simp only [splitRecords_stop (.inr (.inl hfront))]
  | some n =>
    rw [(hv.payload n hpayload).2.1] at hinvalid
    cases hinvalid

/-- The header loop is done with the whole header. -/
theorem HeaderAt.done {st₀ st : TlsReadState} {src₀ stop src : Source UInt8}
    (h : HeaderAt st₀ src₀ st stop) (hstop : ReadStop headerWant .done st stop src) :
    st.header.length = 5 ∧ stop = src := by
  have hshort := h.short
  cases hstop with
  | done hwant =>
    refine ⟨?_,rfl⟩
    by_contra hne
    simp [headerWant, Nat.lt_of_le_of_ne hshort hne] at hwant

/-- A part of the payload is still to come. -/
theorem PayloadFrom.valid {header : Bytes} {n m : Nat} {src₀ stop : Source UInt8}
    {s : TlsReadState × Bytes} (h : PayloadFrom header n src₀ s stop) (hfull : header.length = 5)
    (hvalid : headerValid header = true) (hlen : headerLength header ≠ 0) (hm : 0 < m)
    (hleft : s.1.payloadRemaining = some m) : Valid s.1 := by
  have hheader : s.1.header = header := h.header
  refine ⟨h.keeps,?_,?_⟩
  · rw [hheader]
    exact Nat.le_of_eq hfull
  · intro k hk
    cases hleft.symm.trans hk
    rw [hheader]
    exact ⟨hfull,hvalid,hm,hlen⟩

/-- How a call ends, by the records that have arrived. -/
theorem pollReadRecord_upcoming {st : TlsReadState} (hv : Valid st) (src : Source UInt8) :
    (∃ st' src', st.pollReadRecord src = (.pending, st', src') ∧ Valid st' ∧
      (upcoming st (arrived src)).1 = []) ∨
    (∃ err st' src', st.pollReadRecord src = (.ready (.error err), st', src') ∧
      (upcoming st (arrived src)).1 = []) ∨
    (∃ record st' src' len, st.pollReadRecord src = (.ready (.ok record), st', src') ∧
      upcoming st (arrived src) =
        (⟨record.contentType, len⟩ :: (splitRecords (arrived src')).1,
          (splitRecords (arrived src')).2) ∧
      (record.payload = [] ↔ len = 0) ∧ closesBehind src' = closesBehind src) := by
  obtain ⟨stop,hheader,hstop⟩ := headerLoop_at hv src
  rw [pollReadRecord]
  generalize readLoop headerWant headerFeed st src = r at hheader hstop
  obtain ⟨exit,st₁,src₁⟩ := r
  have hvalid₁ := hheader.valid hv
  cases exit with
  | pending => exact .inl ⟨st₁,src₁,rfl,hvalid₁,hheader.stopped hv hstop (by simp)⟩
  | failed err => exact .inr (.inl ⟨err,st₁,src₁,rfl,hheader.stopped hv hstop (by simp)⟩)
  | eof => exact .inr (.inl ⟨_,st₁,src₁,rfl,hheader.stopped hv hstop (by simp)⟩)
  | done =>
    obtain ⟨hfull,rfl⟩ := hheader.done hstop
    rw [hheader.upcoming hv]
    dsimp only at hvalid₁ hfull ⊢
    cases hvalid : headerValid st₁.header with
    | false =>
      rw [if_pos ((headerValid_iff st₁.header).mpr hvalid)]
      exact .inr (.inl ⟨_,st₁,stop,rfl,upcoming_invalid hvalid₁ hfull hvalid _⟩)
    | true =>
      rw [if_neg (by rw [headerValid_iff, hvalid]; simp)]
      obtain ⟨n,hn,hzero,hup⟩ := upcoming_read hvalid₁ hfull hvalid (arrived stop)
      obtain ⟨stop',hpayload,hstop'⟩ := payloadLoop_from hn hvalid₁.keeps stop
      rw [hup]
      generalize readLoop payloadWant payloadFeed (st₁.lengthRead, []) stop = r at hpayload hstop'
      obtain ⟨exit,⟨st₂,output⟩,src₂⟩ := r
      obtain ⟨rfl,hlen,harrived,hcloses⟩ | ⟨hne,hlt,m,hm,hleft⟩ := hpayload.stopped hstop'
      · refine .inr (.inr ⟨_,st₂,src₂,headerLength st₁.header,rfl,?_,?_,?_⟩)
        · have hge : ¬ (arrived stop).length < n := by
            rw [harrived, List.length_append]
            omega
          have hdrop : (arrived stop).drop n = arrived src₂ := by
            rw [harrived]
            exact List.drop_left' hlen
          have htype : st₂.header = st₁.header := hpayload.header
          rw [if_neg hge, hdrop, htype]
        · rw [← hzero, ← hlen]
          exact List.length_eq_zero_iff.symm
        · exact hcloses.trans hheader.closes
      · have hnone : (if (arrived stop).length < n then ([], st₁.header ++ arrived stop)
            else (⟨st₁.header.getD 0 0, headerLength st₁.header⟩ ::
              (splitRecords ((arrived stop).drop n)).1,
              (splitRecords ((arrived stop).drop n)).2) : List RecordHead × Bytes).1 = [] := by
          rw [if_pos hlt]
        cases exit with
        | done => exact absurd rfl hne
        | failed err => exact .inr (.inl ⟨err,st₂,src₂,rfl,hnone⟩)
        | eof => exact .inr (.inl ⟨_,st₂,src₂,rfl,hnone⟩)
        | pending =>
          have hlen : headerLength st₁.header ≠ 0 := by
            rw [Ne, ← hzero]
            omega
          exact .inl ⟨st₂,src₂,rfl,hpayload.valid hfull hvalid hlen hm hleft,hnone⟩

section
variable {st st' : TlsReadState} {src src' : Source UInt8}

theorem upcoming_of_pending (hv : Valid st) (hr : st.pollReadRecord src = (.pending, st', src')) :
    st'.Valid ∧ (upcoming st (arrived src)).1 = [] := by
  obtain ⟨st₁,src₁,hr₁,hvalid,hnone⟩ | ⟨err,st₁,src₁,hr₁,_⟩ | ⟨record,st₁,src₁,len,hr₁,_⟩ :=
    pollReadRecord_upcoming hv src
  · cases hr.symm.trans hr₁
    exact ⟨hvalid,hnone⟩
  · cases hr.symm.trans hr₁
  · cases hr.symm.trans hr₁

theorem upcoming_of_error {err : IoError} (hv : Valid st)
    (hr : st.pollReadRecord src = (.ready (.error err), st', src')) :
    (upcoming st (arrived src)).1 = [] := by
  obtain ⟨st₁,src₁,hr₁,_⟩ | ⟨err,st₁,src₁,hr₁,hnone⟩ | ⟨record,st₁,src₁,len,hr₁,_⟩ :=
    pollReadRecord_upcoming hv src
  · cases hr.symm.trans hr₁
  · exact hnone
  · cases hr.symm.trans hr₁

theorem upcoming_of_record {record : TlsRecord} (hv : Valid st)
    (hr : st.pollReadRecord src = (.ready (.ok record), st', src')) :
    ∃ len, upcoming st (arrived src) =
        (⟨record.contentType, len⟩ :: (splitRecords (arrived src')).1,
          (splitRecords (arrived src')).2) ∧
      (record.payload = [] ↔ len = 0) := by
  obtain ⟨st₁,src₁,hr₁,_⟩ | ⟨err,st₁,src₁,hr₁,_⟩ | ⟨record,st₁,src₁,len,hr₁,hup,hempty,_⟩ :=
    pollReadRecord_upcoming hv src
  · cases hr.symm.trans hr₁
  · cases hr.symm.trans hr₁
  · cases hr.symm.trans hr₁
    exact ⟨len,hup,hempty⟩

end

end TlsReadState

namespace SimpleObfsTlsStream

/-- The records that have arrived and that the call does not skip, and what is left behind
all records. -/
def upcoming (s : SimpleObfsTlsStream) : List RecordHead × Bytes :=
  let r := (s.readState.getD (.new 0)).upcoming (arrived s.inner)
  (r.1.dropWhile fun head => s.firstResponse && head.contentType != 0x17, r.2)

/-- An empty record is the next to be handed on. -/
def TakesEmpty (s : SimpleObfsTlsStream) : Prop :=
  s.readBuffer = [] ∧ ∃ head, s.upcoming.1.head? = some head ∧ head.length = 0

/-- The inner stream ends behind whole records, and none of them is to be handed on. -/
def EndsHere (s : SimpleObfsTlsStream) : Prop :=
  s.readBuffer = [] ∧ s.upcoming = ([], []) ∧ closesBehind s.inner = true

/-- The reader of a record is in a state that it can be left in. -/
def Valid (s : SimpleObfsTlsStream) : Prop := (s.readState.getD (.new 0)).Valid

theorem upcoming_new (bytes : Bytes) : (TlsReadState.new 0).upcoming bytes = splitRecords bytes := rfl

/-- A call hands out no bytes exactly if an empty record is the first it does not skip. -/
theorem recordLoop_upcoming (s : SimpleObfsTlsStream) {room : Nat} (hroom : 0 < room)
    (hbuffer : s.readBuffer = []) (hv : s.Valid) :
    ((s.recordLoop room).1 = .ready (.ok []) ↔
      ∃ head, s.upcoming.1.head? = some head ∧ head.length = 0) ∧
    ((∀ err, (s.recordLoop room).1 ≠ .ready (.error err)) → (s.recordLoop room).2.Valid) := by
  fun_induction recordLoop s room with
  | case1 s st inner hr =>
    obtain ⟨hvalid,hnone⟩ := TlsReadState.upcoming_of_pending hv hr
    refine ⟨?_,fun _ => hvalid⟩
    simp [upcoming, hnone]
  | case2 s err st inner hr =>
    have hnone := TlsReadState.upcoming_of_error hv hr
    refine ⟨?_,fun herr => absurd rfl (herr err)⟩
    simp [upcoming, hnone]
  | case3 s record st inner hr hskip ih =>
    obtain ⟨len,hup,_⟩ := TlsReadState.upcoming_of_record hv hr
    have hnext := ih hbuffer TlsReadState.valid_new
    have hdrop : s.upcoming.1 = (upcoming { s with inner := inner, readState := none }).1 := by
      simp [upcoming, hup, hskip.1, hskip.2, upcoming_new]
    rw [hdrop]
    exact hnext
  | case4 s record st inner hr hskip buffer out rest hdrain =>
    obtain ⟨len,hup,hempty⟩ := TlsReadState.upcoming_of_record hv hr
    obtain ⟨hcat,hout⟩ := drainBuffer_some hdrain
    have hlen : len ≠ 0 := by
      intro hzero
      have hcat' : out ++ rest = s.readBuffer ++ record.payload := hcat
      rw [hbuffer, hempty.mpr hzero] at hcat'
      exact hout (List.append_eq_nil_iff.mp hcat').1
    refine ⟨?_,fun _ => TlsReadState.valid_new⟩
    have hfirst : (s.firstResponse && record.contentType != 0x17) = false := by simpa using hskip
    simp [upcoming, hup, hfirst, hlen, hout]
  | case5 s record st inner hr hskip buffer hdrain =>
    obtain ⟨len,hup,hempty⟩ := TlsReadState.upcoming_of_record hv hr
    have hnil : s.readBuffer ++ record.payload = [] :=
      (drainBuffer_none hdrain).resolve_right (Nat.ne_of_gt hroom)
    have hlen : len = 0 := hempty.mp (List.append_eq_nil_iff.mp hnil).2
    refine ⟨?_,fun _ => TlsReadState.valid_new⟩
    have hfirst : (s.firstResponse && record.contentType != 0x17) = false := by simpa using hskip
    simp [upcoming, hup, hfirst, hlen]

theorem pollRead_reportsEnd_iff (s : SimpleObfsTlsStream) (hv : s.Valid) {room : Nat}
    (hroom : 0 < room) :
    ReportsEnd (s.pollRead room).1 s.EndsHere ↔ ¬ s.TakesEmpty ∧ ¬ s.EndsHere := by
  unfold ReportsEnd
  rw [pollRead]
  by_cases hbuffer : s.readBuffer = []
  · rw [hbuffer, drainBuffer_nil]
    have hempty : (s.recordLoop room).1 = .ready (.ok []) ↔ s.TakesEmpty :=
      (recordLoop_upcoming s hroom hbuffer hv).1.trans ⟨fun h => ⟨hbuffer,h⟩,fun h => h.2⟩
    have hboth : ¬ (s.TakesEmpty ∧ s.EndsHere) := by
      rintro ⟨⟨_,head,hhead,_⟩,_,hup,_⟩
      rw [hup] at hhead
      cases hhead
    dsimp only
    rw [hempty]
    tauto
  · rw [drainBuffer_pos hbuffer hroom]
    simp [EndsHere, TakesEmpty, hbuffer, Nat.ne_of_gt hroom]

theorem pollRead_valid (s : SimpleObfsTlsStream) (hv : s.Valid) {room : Nat} (hroom : 0 < room)
    (herr : ∀ err, (s.pollRead room).1 ≠ .ready (.error err)) : (s.pollRead room).2.Valid := by
  rw [pollRead] at herr ⊢
  by_cases hbuffer : s.readBuffer = []
  · rw [hbuffer, drainBuffer_nil] at herr ⊢
    exact (recordLoop_upcoming s hroom hbuffer hv).2 herr
  · rw [drainBuffer_pos hbuffer hroom]
    exact hv

theorem reaches_valid {src : Source UInt8} {s : SimpleObfsTlsStream}
    (h : Reaches pollRead (new src) s) : s.Valid := by
  induction h with
  | start => exact TlsReadState.valid_new
  | read room _ hroom herr ih => exact pollRead_valid _ ih hroom herr

end SimpleObfsTlsStream

/-- In every state a call reports the end exactly where it should, unless an empty unit is
what comes next; and simple-obfs TLS never reports the end of its inner stream. -/
theorem reports_end_iff (room : Nat) :
    (∀ s : H2Stream, 0 < room →
      (ReportsEnd (s.pollRead answerData room).1 s.EndsHere ↔ ¬ s.TakesEmpty)) ∧
    (∀ s : WebSocketTransport, 0 < room →
      (ReportsEnd (s.pollRead room).1 s.EndsHere ↔ ¬ s.TakesEmpty)) ∧
    ∀ (src : Source UInt8) (s : SimpleObfsTlsStream),
      Reaches SimpleObfsTlsStream.pollRead (.new src) s → 0 < room →
      (ReportsEnd (s.pollRead room).1 s.EndsHere ↔ ¬ s.TakesEmpty ∧ ¬ s.EndsHere) :=
  ⟨fun s hroom => s.pollRead_reportsEnd_iff hroom,fun s hroom => s.pollRead_reportsEnd_iff hroom,
    fun _ s h hroom => s.pollRead_reportsEnd_iff (SimpleObfsTlsStream.reaches_valid h) hroom⟩

def emptyFrameFirst : H2Stream := .new [.data [], .data [1]] ⟨[], none, 0, []⟩

def emptyMessageFirst : WebSocketTransport := .new [.message (.binary []), .message (.binary [1])]

def emptyRecordFirst : SimpleObfsTlsStream :=
  .new [.segment 0x17 [3, 3, 0, 0], .segment 0x17 [3, 3, 0, 1, 1]]

def wholeRecords : SimpleObfsTlsStream := .new [.segment 0x16 [3, 3, 0, 1, 1]]

/-- An empty DATA frame, an empty message and an empty record before more data each read as
the end, and the end of the inner stream behind a record reads as an error. -/
theorem empty_units_read_as_end :
    ¬ ReportsEnd (emptyFrameFirst.pollRead answerData 16).1 emptyFrameFirst.EndsHere ∧
      ¬ ReportsEnd (emptyMessageFirst.pollRead 16).1 emptyMessageFirst.EndsHere ∧
      ¬ ReportsEnd (emptyRecordFirst.pollRead 16).1 emptyRecordFirst.EndsHere ∧
      ¬ ReportsEnd (wholeRecords.pollRead 16).1 wholeRecords.EndsHere := by
  have hframe : (emptyFrameFirst.pollRead answerData 16).1 = .ready (.ok []) := by decide
  have hmessage : (emptyMessageFirst.pollRead 16).1 = .ready (.ok []) := by decide
  have hrecord : (emptyRecordFirst.pollRead 16).1 = .ready (.ok []) := by decide +kernel
  have hend : (wholeRecords.pollRead 16).1 =
      .ready (.error ⟨.unexpectedEof, "simple-obfs TLS frame ended before header"⟩) := by
    decide +kernel
  have hupcoming : emptyRecordFirst.upcoming.1 ≠ [] := by decide +kernel
  have hwhole : wholeRecords.upcoming = ([], []) := by decide +kernel
  refine ⟨fun h => ?_,fun h => ?_,fun h => ?_,fun h => ?_⟩
  · cases (h.mp hframe).2
  · obtain ⟨_,hnext | hnext⟩ := h.mp hmessage <;> cases hnext
  · exact hupcoming (congrArg Prod.fst (h.mp hrecord).2.1)
  · cases hend.symm.trans (h.mpr ⟨rfl,hwhole,rfl⟩)

end AtlasKernel.Shadowsocks
