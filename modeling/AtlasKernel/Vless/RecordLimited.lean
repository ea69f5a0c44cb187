import AtlasKernel.Lib.Bytes
import AtlasKernel.Lib.PollIo
import AtlasKernel.Lib.Steps

/-! The stream beneath the outer TLS session, which hands out no more than one record at a
time, so that the session can be left behind between two records. Source: `RecordLimitedTcp`
in `adapter/vless.rs`. -/
namespace AtlasKernel.Vless
open AtlasKernel.Lib

/-! ## The stream -/

structure RecordLimitedTcp where
  tcp : Source UInt8
  header : Bytes
  headerLen : Nat
  remainingBody : Option Nat
  pendingYield : Bool
deriving DecidableEq, Repr

namespace RecordLimitedTcp

def new (tcp : Source UInt8) : RecordLimitedTcp := ⟨tcp, List.replicate 5 0, 0, none, false⟩

/-- What is left of the header or of the body. -/
def remaining (s : RecordLimitedTcp) : Nat := s.remainingBody.getD (5 - s.headerLen)

/-- The end of a record, and the next read yields. -/
def yields (s : RecordLimitedTcp) : RecordLimitedTcp :=
  { s with header := List.replicate 5 0, headerLen := 0, remainingBody := none, pendingYield := true }

def advance (s : RecordLimitedTcp) (filled : Bytes) : RecordLimitedTcp :=
  match s.remainingBody with
  | some remaining =>
    let next := remaining - filled.length
    if next = 0 then s.yields else { s with remainingBody := some next }
  | none =>
    let headerEnd := s.headerLen + filled.length
    let header := s.header.take s.headerLen ++ filled ++ s.header.drop headerEnd
    if headerEnd = 5 then
      let bodyLen := be16At header 3
      if bodyLen = 0 then s.yields
      else { s with header := header, headerLen := headerEnd, remainingBody := some bodyLen }
    else { s with header := header, headerLen := headerEnd }

/-- `poll_read` into a buffer with so much room. A yield wakes the task itself. -/
def pollRead (s : RecordLimitedTcp) (room : Nat) : Poll (IoResult Bytes) × RecordLimitedTcp :=
  if s.pendingYield then (.pending, { s with pendingYield := false })
  else if room = 0 then (.ready (.ok []), s)
  else
    match Lib.pollRead (min (min s.remaining room) (16 * 1024)) s.tcp with
    | (.ready (.ok []), tcp) => (.ready (.ok []), { s with tcp := tcp })
    | (.ready (.ok filled), tcp) => (.ready (.ok filled), { s with tcp := tcp }.advance filled)
    | (r, tcp) => (r, { s with tcp := tcp })

def step (s : RecordLimitedTcp) (room : Nat) : RecordLimitedTcp × List (Poll (IoResult Bytes)) :=
  ((s.pollRead room).2, [(s.pollRead room).1])

end RecordLimitedTcp

def readBytes : Poll (IoResult Bytes) → Bytes
  | .ready (.ok filled) => filled
  | _ => []

def returned (answers : List (Poll (IoResult Bytes))) : Bytes := answers.flatMap readBytes

/-! ## Records -/

structure TlsRecord where
  contentType : UInt8
  version : UInt8 × UInt8
  body : Bytes
  fits : body.length < 65536

namespace TlsRecord

def header (r : TlsRecord) : Bytes := [r.contentType, r.version.1, r.version.2] ++ be16 r.body.length

def bytes (r : TlsRecord) : Bytes := r.header ++ r.body

@[simp] theorem header_length (r : TlsRecord) : r.header.length = 5 := rfl

theorem bodyLen (r : TlsRecord) : be16At r.header 3 = r.body.length := ofBe16_of_lt r.fits

end TlsRecord

/-- Some bytes, at so much of the stream, lie within the header or within the body of one record. -/
def WithinPart (records : List TlsRecord) (start : Nat) (out : Bytes) : Prop :=
  ∃ past record future before after, records = past ++ record :: future ∧
    ((record.header = before ++ (out ++ after) ∧
        start = (past.flatMap TlsRecord.bytes ++ before).length) ∨
      (record.body = before ++ (out ++ after) ∧
        start = (past.flatMap TlsRecord.bytes ++ (record.header ++ before)).length))

/-! ## Positions -/

/-- Where the stream stands when so much of the records has been returned. -/
inductive Position (records : List TlsRecord) (s : RecordLimitedTcp) (done : Bytes) : Prop where
  | header (past : List TlsRecord) (record : TlsRecord) (future : List TlsRecord)
      (head tail : Bytes) (hrecords : records = past ++ record :: future)
      (hheader : record.header = head ++ tail) (htail : tail ≠ [])
      (hdone : done = past.flatMap TlsRecord.bytes ++ head)
      (hleft : sourceBytes s.tcp = tail ++ (record.body ++ future.flatMap TlsRecord.bytes))
      (hbody : s.remainingBody = none) (hlen : s.headerLen = head.length)
      (hfield : s.header.take head.length = head) (hfive : s.header.length = 5)
  | body (past : List TlsRecord) (record : TlsRecord) (future : List TlsRecord)
      (head tail : Bytes) (hrecords : records = past ++ record :: future)
      (hpart : record.body = head ++ tail) (htail : tail ≠ [])
      (hdone : done = past.flatMap TlsRecord.bytes ++ (record.header ++ head))
      (hleft : sourceBytes s.tcp = tail ++ future.flatMap TlsRecord.bytes)
      (hbody : s.remainingBody = some tail.length)
  | finished (hdone : done = records.flatMap TlsRecord.bytes) (hleft : sourceBytes s.tcp = [])

theorem Position.stream {records : List TlsRecord} {s : RecordLimitedTcp} {done : Bytes}
    (h : Position records s done) : done ++ sourceBytes s.tcp = records.flatMap TlsRecord.bytes := by
  cases h with
  | header past record future head tail hrecords hheader htail hdone hleft =>
    simp [hrecords, hdone, hleft, TlsRecord.bytes, hheader]
  | body past record future head tail hrecords hpart htail hdone hleft =>
    simp [hrecords, hdone, hleft, TlsRecord.bytes, hpart]
  | finished hdone hleft => simp [hdone, hleft]

/-- At the start of a record, or behind the last. -/
theorem Position.start {records past future : List TlsRecord} {s : RecordLimitedTcp} {done : Bytes}
    (hrecords : records = past ++ future) (hdone : done = past.flatMap TlsRecord.bytes)
    (hleft : sourceBytes s.tcp = future.flatMap TlsRecord.bytes) (hbody : s.remainingBody = none)
    (hlen : s.headerLen = 0) (hfive : s.header.length = 5) : Position records s done := by
  cases future with
  | nil =>
    apply Position.finished
    · rw [hdone, hrecords, List.append_nil]
    · rw [hleft, List.flatMap_nil]
  | cons record future =>
    apply Position.header past record future [] record.header hrecords rfl
    · simp [TlsRecord.header]
    · rw [hdone, List.append_nil]
    · rw [hleft, List.flatMap_cons, TlsRecord.bytes, List.append_assoc]
    · exact hbody
    · exact hlen
    · rfl
    · exact hfive

/-- What comes next in the stream, cut off where a part ends. -/
theorem split_part {out rest tail more : Bytes} (h : tail ++ more = out ++ rest)
    (hle : out.length ≤ tail.length) : ∃ tail', tail = out ++ tail' ∧ rest = tail' ++ more := by
  have hpre : out <+: tail := List.prefix_of_prefix_length_le
    (h ▸ List.prefix_append out rest) (List.prefix_append tail more) hle
  obtain ⟨tail',rfl⟩ := hpre
  rw [List.append_assoc, List.append_cancel_left_eq] at h
  exact ⟨tail', rfl, h.symm⟩

/-- The record has come to its end. -/
theorem Position.yields {records past future : List TlsRecord} {record : TlsRecord}
    {s : RecordLimitedTcp} (hrecords : records = past ++ record :: future)
    (hleft : sourceBytes s.tcp = future.flatMap TlsRecord.bytes) :
    Position records s.yields (past.flatMap TlsRecord.bytes ++ record.bytes) := by
  have hpast : records = (past ++ [record]) ++ future := by simpa using hrecords
  have hrest : sourceBytes s.yields.tcp = future.flatMap TlsRecord.bytes := hleft
  apply Position.start hpast _ hrest
  · rfl
  · rfl
  · rfl
  · simp

theorem Position.advance_header {records past future : List TlsRecord} {record : TlsRecord}
    {s : RecordLimitedTcp} {head out tail : Bytes} (hrecords : records = past ++ record :: future)
    (hheader : record.header = head ++ (out ++ tail))
    (hleft : sourceBytes s.tcp = tail ++ (record.body ++ future.flatMap TlsRecord.bytes))
    (hbody : s.remainingBody = none) (hlen : s.headerLen = head.length)
    (hfield : s.header.take head.length = head) (hfive : s.header.length = 5) :
    Position records (s.advance out) (past.flatMap TlsRecord.bytes ++ (head ++ out)) := by
  have hfull : head.length + (out.length + tail.length) = 5 := by
    rw [← List.length_append, ← List.length_append, ← hheader, TlsRecord.header_length]
  rw [RecordLimitedTcp.advance, hbody, hlen, hfield]
  dsimp only
  by_cases htail : tail = []
  · subst htail
    rw [List.append_nil] at hheader
    rw [List.length_nil, Nat.add_zero] at hfull
    have hwhole : head ++ out ++ s.header.drop (head.length + out.length) = record.header := by
      rw [hheader, hfull, ← hfive, List.drop_length, List.append_nil]
    rw [if_pos hfull, hwhole, TlsRecord.bodyLen, ← hheader]
    by_cases hempty : record.body = []
    · rw [if_pos (by rw [hempty]; rfl)]
      have hbytes : record.bytes = record.header := by rw [TlsRecord.bytes, hempty, List.append_nil]
      rw [← hbytes]
      apply Position.yields hrecords
      simpa [hempty] using hleft
    · rw [if_neg (by rwa [List.length_eq_zero_iff])]
      apply Position.body past record future [] record.body hrecords rfl hempty
      · rw [List.append_nil]
      · exact hleft
      · rfl
  · have hpos := List.length_pos_iff.mpr htail
    rw [if_neg (by omega)]
    apply Position.header past record future (head ++ out) tail hrecords
    · rw [hheader, List.append_assoc]
    · exact htail
    · rfl
    · exact hleft
    · rfl
    · exact List.length_append.symm
    · exact List.take_left' rfl
    · simp only [List.length_append, List.length_drop, hfive]
      omega

theorem Position.advance_body {records past future : List TlsRecord} {record : TlsRecord}
    {s : RecordLimitedTcp} {head out tail : Bytes} (hrecords : records = past ++ record :: future)
    (hpart : record.body = head ++ (out ++ tail))
    (hleft : sourceBytes s.tcp = tail ++ future.flatMap TlsRecord.bytes)
    (hbody : s.remainingBody = some (out ++ tail).length) :
    Position records (s.advance out)
      (past.flatMap TlsRecord.bytes ++ (record.header ++ (head ++ out))) := by
  rw [RecordLimitedTcp.advance, hbody]
  dsimp only
  rw [List.length_append, Nat.add_sub_cancel_left]
  by_cases htail : tail = []
  · subst htail
    rw [List.append_nil] at hpart
    rw [if_pos List.length_nil, ← hpart]
    exact Position.yields hrecords hleft
  · rw [if_neg (by rwa [List.length_eq_zero_iff])]
    apply Position.body past record future (head ++ out) tail hrecords
    · rw [hpart, List.append_assoc]
    · exact htail
    · rfl
    · exact hleft
    · rfl

theorem Position.advance {records : List TlsRecord} {s : RecordLimitedTcp} {done out : Bytes}
    {tcp : Source UInt8} (h : Position records s done) (hout : out ≠ [])
    (hle : out.length ≤ s.remaining) (hread : sourceBytes s.tcp = out ++ sourceBytes tcp) :
    Position records ({ s with tcp := tcp }.advance out) (done ++ out) ∧
      WithinPart records done.length out := by
  rw [RecordLimitedTcp.remaining] at hle
  cases h with
  | header past record future head tail hrecords hheader htail hdone hleft hbody hlen hfield hfive =>
    have hfull : head.length + tail.length = 5 := by
      rw [← List.length_append, ← hheader, TlsRecord.header_length]
    rw [hbody, Option.getD_none, hlen] at hle
    obtain ⟨tail',rfl,hrest⟩ := split_part (hleft.symm.trans hread) (by omega)
    constructor
    · rw [hdone, List.append_assoc]
      exact Position.advance_header hrecords hheader hrest hbody hlen hfield hfive
    · refine ⟨past, record, future, head, tail', hrecords, .inl ⟨hheader, ?_⟩⟩
      rw [hdone]
  | body past record future head tail hrecords hpart htail hdone hleft hbody =>
    rw [hbody, Option.getD_some] at hle
    obtain ⟨tail',rfl,hrest⟩ := split_part (hleft.symm.trans hread) hle
    constructor
    · rw [hdone, List.append_assoc, List.append_assoc]
      exact Position.advance_body hrecords hpart hrest hbody
    · refine ⟨past, record, future, head, tail', hrecords, .inr ⟨hpart, ?_⟩⟩
      rw [hdone]
  | finished hdone hleft =>
    rw [hleft] at hread
    exact absurd (List.append_eq_nil_iff.mp hread.symm).1 hout

theorem Position.same {records : List TlsRecord} {s : RecordLimitedTcp} {done : Bytes}
    (h : Position records s done) {tcp : Source UInt8} (htcp : sourceBytes tcp = sourceBytes s.tcp)
    (yield : Bool) : Position records { s with tcp := tcp, pendingYield := yield } done := by
  cases h with
  | header past record future head tail hrecords hheader htail hdone hleft hbody hlen hfield hfive =>
    exact .header past record future head tail hrecords hheader htail hdone (htcp.trans hleft)
      hbody hlen hfield hfive
  | body past record future head tail hrecords hpart htail hdone hleft hbody =>
    exact .body past record future head tail hrecords hpart htail hdone (htcp.trans hleft) hbody
  | finished hdone hleft => exact .finished hdone (htcp.trans hleft)

theorem Position.remaining_pos {records : List TlsRecord} {s : RecordLimitedTcp} {done : Bytes}
    (h : Position records s done) (hleft : sourceBytes s.tcp ≠ []) : 0 < s.remaining := by
  rw [RecordLimitedTcp.remaining]
  cases h with
  | header past record future head tail hrecords hheader htail _ _ hbody hlen =>
    have hpos := List.length_pos_iff.mpr htail
    have hfull : head.length + tail.length = 5 := by
      rw [← List.length_append, ← hheader, TlsRecord.header_length]
    rw [hbody, Option.getD_none]
    omega
  | body past record future head tail _ _ htail _ _ hbody =>
    rw [hbody, Option.getD_some]
    exact List.length_pos_iff.mpr htail
  | finished _ hnil => exact absurd hnil hleft

/-! ## One read -/

/-- A read that brings nothing uses up an answer, unless the source is at its end. -/
theorem pollRead_nothing {room : Nat} {src src' : Source UInt8} {r : Poll (IoResult Bytes)}
    (h : Lib.pollRead room src = (r, src')) (hr : readBytes r = []) :
    sourceBytes src' = sourceBytes src ∧
      (0 < room → sourceBytes src ≠ [] → sourceSize src' < sourceSize src) := by
  rw [sourceSize, sourceSize]
  cases r with
  | pending =>
    rw [pollRead_pending h]
    simp
  | ready r =>
    cases r with
    | error e =>
      rw [pollRead_error h]
      simp
    | ok out =>
      have hout : out = [] := hr
      have hsame := (pollRead_ok h).2.2.2 hout
      rw [hsame.1]
      refine ⟨rfl, fun hroom hne => ?_⟩
      cases hsame.2 with
      | inl hnil =>
        rw [hnil] at hne
        exact absurd rfl hne
      | inr hzero => exact absurd hzero (Nat.ne_of_gt hroom)

/-- What a read can do. -/
theorem RecordLimitedTcp.pollRead_cases (s : RecordLimitedTcp) (room : Nat) :
    (s.pendingYield = true ∧ s.pollRead room = (.pending, { s with pendingYield := false })) ∨
    (s.pendingYield = false ∧ room = 0 ∧ s.pollRead room = (.ready (.ok []), s)) ∨
    (s.pendingYield = false ∧ 0 < room ∧ ∃ r tcp,
      Lib.pollRead (min (min s.remaining room) (16 * 1024)) s.tcp = (r, tcp) ∧
      ((readBytes r = [] ∧ s.pollRead room = (r, { s with tcp := tcp })) ∨
        (readBytes r ≠ [] ∧ r = .ready (.ok (readBytes r)) ∧
          s.pollRead room = (r, { s with tcp := tcp }.advance (readBytes r))))) := by
  rw [pollRead]
  by_cases hyield : s.pendingYield = true
  · exact .inl ⟨hyield, if_pos hyield⟩
  · have hno : s.pendingYield = false := by simpa using hyield
    rw [if_neg hyield]
    by_cases hroom : room = 0
    · exact .inr (.inl ⟨hno, hroom, if_pos hroom⟩)
    · rw [if_neg hroom]
      refine .inr (.inr ⟨hno, Nat.pos_of_ne_zero hroom, ?_⟩)
      generalize Lib.pollRead (min (min s.remaining room) (16 * 1024)) s.tcp = answer
      obtain ⟨r,tcp⟩ := answer
      refine ⟨r, tcp, rfl, ?_⟩
      cases r with
      | pending => exact .inl ⟨rfl, rfl⟩
      | ready r =>
        cases r with
        | error e => exact .inl ⟨rfl, rfl⟩
        | ok out =>
          cases out with
          | nil => exact .inl ⟨rfl, rfl⟩
          | cons b bs => exact .inr ⟨List.cons_ne_nil b bs, rfl, rfl⟩

theorem pollRead_position {records : List TlsRecord} {s : RecordLimitedTcp} {done : Bytes}
    (h : Position records s done) (room : Nat) :
    Position records (s.pollRead room).2 (done ++ readBytes (s.pollRead room).1) ∧
      (readBytes (s.pollRead room).1 ≠ [] →
        WithinPart records done.length (readBytes (s.pollRead room).1)) := by
  rcases s.pollRead_cases room with ⟨_,hr⟩ | ⟨_,_,hr⟩ | ⟨_,_,r,tcp,htcp,⟨hnil,hr⟩ | ⟨hout,hok,hr⟩⟩
  · rw [hr]
    simpa [readBytes] using h.same rfl false
  · rw [hr]
    simpa [readBytes] using h
  · have hsame := (pollRead_nothing htcp hnil).1
    rw [hr, hnil, List.append_nil]
    exact ⟨h.same hsame s.pendingYield, fun hne => absurd rfl hne⟩
  · rw [hok] at htcp
    have hread := pollRead_ok htcp
    have hadvance := h.advance hout (hread.2.1.trans (by omega)) hread.1
    rw [hr]
    exact ⟨hadvance.1, fun _ => hadvance.2⟩

/-- The answers of the stream below that are left, and the yield that each of them can cause. -/
def RecordLimitedTcp.size (s : RecordLimitedTcp) : Nat :=
  2 * sourceSize s.tcp + s.pendingYield.toNat

theorem RecordLimitedTcp.advance_tcp (s : RecordLimitedTcp) (filled : Bytes) :
    (s.advance filled).tcp = s.tcp := by
  rw [advance]
  split
  · dsimp only
    split <;> rfl
  · dsimp only
    split
    · split <;> rfl
    · rfl

theorem pollRead_size {records : List TlsRecord} {s : RecordLimitedTcp} {done : Bytes}
    (h : Position records s done) (hleft : sourceBytes s.tcp ≠ []) (room : Nat) :
    (s.pollRead room).2.size + (if 0 < room then 1 else 0) ≤ s.size := by
  have hpos := h.remaining_pos hleft
  rcases s.pollRead_cases room with ⟨hyield,hr⟩ | ⟨_,hroom,hr⟩ |
    ⟨_,hroom,r,tcp,htcp,⟨hnil,hr⟩ | ⟨hout,hok,hr⟩⟩
  · rw [hr, RecordLimitedTcp.size, RecordLimitedTcp.size, hyield]
    simp only [Bool.toNat_true, Bool.toNat_false]
    split <;> omega
  · rw [hr, if_neg (by omega)]
    exact le_rfl
  · have hless := (pollRead_nothing htcp hnil).2 (by omega) hleft
    rw [hr, if_pos hroom, RecordLimitedTcp.size, RecordLimitedTcp.size]
    dsimp only
    omega
  · rw [hok] at htcp
    have hless := sourceSize_pollRead htcp hout
    have hbool := Bool.toNat_le ({ s with tcp := tcp }.advance (readBytes r)).pendingYield
    rw [hr, if_pos hroom, RecordLimitedTcp.size, RecordLimitedTcp.size, RecordLimitedTcp.advance_tcp]
    dsimp only
    omega

/-! ## Many reads -/

theorem run_position {records : List TlsRecord} {s : RecordLimitedTcp} {done : Bytes}
    (h : Position records s done) (rooms : List Nat) :
    Position records (run RecordLimitedTcp.step s rooms).1
      (done ++ returned (run RecordLimitedTcp.step s rooms).2) := by
  induction rooms generalizing s done with
  | nil => simpa [run, returned] using h
  | cons room rooms ih =>
    have hrest := ih (pollRead_position h room).1
    simpa [run, returned, RecordLimitedTcp.step] using hrest

/-- The bytes that are left come after those that are returned. -/
theorem run_left {records : List TlsRecord} {s : RecordLimitedTcp} {done : Bytes}
    (h : Position records s done) (rooms : List Nat) :
    sourceBytes s.tcp = returned (run RecordLimitedTcp.step s rooms).2 ++
      sourceBytes (run RecordLimitedTcp.step s rooms).1.tcp := by
  have hafter := (run_position h rooms).stream
  rwa [← h.stream, List.append_assoc, List.append_cancel_left_eq, eq_comm] at hafter

/-- As long as there are bytes left, every read into a buffer with room brings the end nearer. -/
theorem run_size {records : List TlsRecord} {s : RecordLimitedTcp} {done : Bytes}
    (h : Position records s done) (rooms : List Nat)
    (hleft : sourceBytes (run RecordLimitedTcp.step s rooms).1.tcp ≠ []) :
    (run RecordLimitedTcp.step s rooms).1.size + rooms.countP (0 < ·) ≤ s.size := by
  induction rooms generalizing s done with
  | nil => simp [run]
  | cons room rooms ih =>
    have hnow : sourceBytes s.tcp ≠ [] := by
      intro hnil
      have hall := run_left h (room :: rooms)
      rw [hnil] at hall
      exact hleft (List.append_eq_nil_iff.mp hall.symm).2
    have hread := pollRead_size h hnow room
    have hrest := ih (pollRead_position h room).1 hleft
    rw [List.countP_cons]
    simp only [decide_eq_true_eq]
    change (run RecordLimitedTcp.step (s.pollRead room).2 rooms).1.size + _ ≤ _
    omega

theorem position_new {records : List TlsRecord} {tcp : Source UInt8}
    (h : sourceBytes tcp = records.flatMap TlsRecord.bytes) :
    Position records (.new tcp) [] := by
  have hnone : records = [] ++ records := rfl
  apply Position.start hnone
  · rfl
  · exact h
  · rfl
  · rfl
  · rfl

/-- Of a stream of records the reads return what has come in, each a piece of one header or of
one body; and all of it, given enough reads into buffers with room. -/
theorem reads_within_records (records : List TlsRecord) (tcp : Source UInt8)
    (h : sourceBytes tcp = records.flatMap TlsRecord.bytes) (rooms : List Nat) :
    let r := run RecordLimitedTcp.step (.new tcp) rooms
    returned r.2 ++ sourceBytes r.1.tcp = records.flatMap TlsRecord.bytes ∧
      (2 * sourceSize tcp ≤ rooms.countP (0 < ·) → returned r.2 = records.flatMap TlsRecord.bytes) ∧
      ∀ room out, (r.1.pollRead room).1 = .ready (.ok out) → out ≠ [] →
        WithinPart records (returned r.2).length out := by
  have hstart := position_new h
  have hposition := run_position hstart rooms
  rw [List.nil_append] at hposition
  refine ⟨hposition.stream, ?_, ?_⟩
  · intro henough
    by_contra hmore
    have hleft : sourceBytes (run RecordLimitedTcp.step (.new tcp) rooms).1.tcp ≠ [] := by
      intro hnil
      have hstream := hposition.stream
      rw [hnil, List.append_nil] at hstream
      exact hmore hstream
    have hsize := run_size hstart rooms hleft
    have hnew : (RecordLimitedTcp.new tcp).size = 2 * sourceSize tcp := rfl
    have hpos := List.length_pos_iff.mpr hleft
    rw [hnew, RecordLimitedTcp.size, sourceSize] at hsize
    omega
  · intro room out hread hout
    have hpart := (pollRead_position hposition room).2
    rw [hread] at hpart
    exact hpart hout

/-- A record with a body and one without, in three segments that do not end with them. -/
theorem reads_within_records_segments :
    returned (run RecordLimitedTcp.step
      (.new [.segment 0x17 [3, 3], .pending, .segment 0 [2, 0xaa], .segment 0xbb [0x15, 3, 3, 0, 0]])
      (List.replicate 32 4096)).2 = [0x17, 3, 3, 0, 2, 0xaa, 0xbb, 0x15, 3, 3, 0, 0] := by
  have hreads := reads_within_records
    [⟨0x17, (3, 3), [0xaa, 0xbb], by decide⟩, ⟨0x15, (3, 3), [], by decide⟩]
    [.segment 0x17 [3, 3], .pending, .segment 0 [2, 0xaa], .segment 0xbb [0x15, 3, 3, 0, 0]]
    (by decide) (List.replicate 32 4096)
  exact hreads.2.1 (by decide)

end AtlasKernel.Vless
