import AtlasKernel.Lib.Checked
import AtlasKernel.Lib.CheckedFrames
import AtlasKernel.Vless.RecordLimited
import AtlasKernel.Vless.VisionDirect

/-! Where the uplink switches to direct mode: the scan for whole records of application data,
and where it leaves the local stream. The scan sees one chunk at a time and not the stream in
front of it. Source: `adapter/vless.rs`. -/
namespace AtlasKernel.Vless
open AtlasKernel.Lib

/-! ## Whole records -/

/-- Some records of a kind, one behind the other, and nothing else. -/
def WholeRecords (kind : TlsRecord → Prop) (data : Bytes) : Prop :=
  ∃ records : List TlsRecord, (∀ r ∈ records, kind r) ∧ data = records.flatMap TlsRecord.bytes

/-- 17 03 03 -/
def TlsRecord.ApplicationData (r : TlsRecord) : Prop :=
  r.contentType = 0x17 ∧ r.version = (0x03, 0x03)

/-- The end of a record, of whatever type, or the beginning of the stream. -/
def AtBoundary (stream : Bytes) : Prop := WholeRecords (fun _ => True) stream

variable {kind : TlsRecord → Prop} {data : Bytes}

theorem WholeRecords.nil : WholeRecords kind [] := ⟨[],by simp,rfl⟩

theorem WholeRecords.cons {r : TlsRecord} (hr : kind r) {rest : Bytes} (h : WholeRecords kind rest) :
    WholeRecords kind (r.bytes ++ rest) := by
  obtain ⟨records,hkind,rfl⟩ := h
  refine ⟨r :: records,?_,?_⟩
  · simpa using ⟨hr,hkind⟩
  · rw [List.flatMap_cons]

theorem WholeRecords.append {more : Bytes} (h : WholeRecords kind data)
    (hmore : WholeRecords kind more) : WholeRecords kind (data ++ more) := by
  obtain ⟨records,hkind,rfl⟩ := h
  induction records with
  | nil => exact hmore
  | cons r records ih =>
    rw [List.flatMap_cons, List.append_assoc]
    apply WholeRecords.cons (hkind r List.mem_cons_self)
    apply ih
    intro r' hr'
    exact hkind r' (List.mem_cons_of_mem r hr')

theorem WholeRecords.mono {kind' : TlsRecord → Prop} (hkind : ∀ r, kind r → kind' r)
    (h : WholeRecords kind data) : WholeRecords kind' data := by
  obtain ⟨records,hall,rfl⟩ := h
  exact ⟨records,fun r hr => hkind r (hall r hr),rfl⟩

/-- What is not empty begins with one of the records. -/
theorem WholeRecords.front (h : WholeRecords kind data) (hne : data ≠ []) :
    ∃ r rest, kind r ∧ WholeRecords kind rest ∧ data = r.bytes ++ rest := by
  obtain ⟨records,hall,rfl⟩ := h
  cases records with
  | nil => exact absurd rfl hne
  | cons r records =>
    refine ⟨r,records.flatMap TlsRecord.bytes,hall r List.mem_cons_self,⟨records,?_,rfl⟩,?_⟩
    · intro r' hr'
      exact hall r' (List.mem_cons_of_mem r hr')
    · rw [List.flatMap_cons]

namespace TlsRecord
variable (r : TlsRecord) (rest : Bytes)

theorem front_length : (r.bytes ++ rest).length = 5 + r.body.length + rest.length := by
  rw [bytes, List.length_append, List.length_append, header_length]

/-- The length that stands in front of a record, and what comes behind the record. -/
theorem front_bodyLen : be16At (r.bytes ++ rest) 3 = r.body.length := ofBe16_of_lt r.fits

theorem front_drop : (r.bytes ++ rest).drop (5 + r.body.length) = rest := by
  apply List.drop_left'
  rw [bytes, List.length_append, header_length]

/-- A record is its type, its version, and as many bytes as it says. -/
theorem of_front {data : Bytes} (hlen : 5 ≤ data.length) (hbody : be16At data 3 ≤ data.length - 5) :
    ∃ r : TlsRecord, r.contentType = byteAt data 0 ∧ r.version = (byteAt data 1, byteAt data 2) ∧
      data = r.bytes ++ data.drop (5 + be16At data 3) := by
  obtain ⟨a,b,c,hi,lo,body,rfl⟩ : ∃ a b c hi lo body, data = a :: b :: c :: hi :: lo :: body := by
    rcases data with _ | ⟨a,_ | ⟨b,_ | ⟨c,_ | ⟨hi,_ | ⟨lo,body⟩⟩⟩⟩⟩
    case cons.cons.cons.cons.cons => exact ⟨a,b,c,hi,lo,body,rfl⟩
    all_goals simp at hlen
  have hlen : be16At (a :: b :: c :: hi :: lo :: body) 3 = ofBe16 hi lo := rfl
  rw [hlen] at hbody ⊢
  have hfits : (body.take (ofBe16 hi lo)).length = ofBe16 hi lo := List.length_take_of_le hbody
  have hlt := ofBe16_lt hi lo
  refine ⟨⟨a,(b,c),body.take (ofBe16 hi lo),by omega⟩,rfl,rfl,?_⟩
  simp only [bytes, header, hfits, be16_ofBe16, Nat.add_comm 5, List.drop_succ_cons,
    List.cons_append, List.nil_append, List.take_append_drop]

end TlsRecord

/-! ## The scan -/

/-- One turn of the loop of `is_complete_tls_application_data`: the offset it goes on with, or
`none` where it returns `false`. -/
def scanRecord? (data : Bytes) (offset : Nat) : Option (Option Nat) := do
  let left ← sub? data.length offset
  if left < 5 then return none
  else
    let contentType ← byteAt? data offset
    let major ← byteAt? data (offset + 1)
    let minor ← byteAt? data (offset + 2)
    if contentType ≠ 0x17 ∨ major ≠ 0x03 ∨ minor ≠ 0x03 then return none
    else
      let recordLen ← be16At? data (offset + 3)
      let offset := offset + 5
      let left ← sub? data.length offset
      if left < recordLen then return none
      else return some (offset + recordLen)

/-- The loop, in at most so many turns. -/
def scanRecords (data : Bytes) : Nat → Nat → Ending Bool
  | 0, _ => .unfinished
  | turns + 1, offset =>
    if offset < data.length then
      match scanRecord? data offset with
      | none => .panicked
      | some none => .done false
      | some (some next) => scanRecords data turns next
    else .done (decide (offset = data.length))

theorem byteAt?_drop (data : Bytes) (offset i : Nat) :
    byteAt? data (offset + i) = byteAt? (data.drop offset) i := by
  rw [byteAt?, byteAt?, List.getElem?_drop]

/-- A turn reads the record that begins at the offset, and nothing in front of it. -/
theorem scanRecord?_eq {offset : Nat} (h : offset < data.length) :
    scanRecord? data offset =
      some (if (data.drop offset).length < 5 then none
        else if (data.drop offset).take 3 ≠ [0x17, 0x03, 0x03] then none
        else if (data.drop offset).length - 5 < be16At (data.drop offset) 3 then none
        else some (offset + (5 + be16At (data.drop offset) 3))) := by
  have hlen : (data.drop offset).length = data.length - offset := List.length_drop
  rw [scanRecord?, sub?_eq (Nat.le_of_lt h), hlen]
  simp only [Option.bind_eq_bind, Option.bind_some]
  by_cases hshort : data.length - offset < 5
  · rw [if_pos hshort, if_pos hshort]
    rfl
  · rw [if_neg hshort, if_neg hshort, sub?_eq (by omega)]
    have hbyte {i : Nat} (hi : i < 5) :
        byteAt? data (offset + i) = some (byteAt (data.drop offset) i) := by
      rw [byteAt?_drop]
      apply byteAt?_eq
      omega
    have hfield : be16At? data (offset + 3) = some (be16At (data.drop offset) 3) := by
      rw [be16At?, Nat.add_assoc, hbyte (by decide), hbyte (by decide)]
      rfl
    have htype : (data.drop offset).take 3 = [0x17, 0x03, 0x03] ↔
        ¬ (byteAt (data.drop offset) 0 ≠ 0x17 ∨ byteAt (data.drop offset) 1 ≠ 0x03 ∨
          byteAt (data.drop offset) 2 ≠ 0x03) := by
      rw [take_eq_map_byteAt (by omega)]
      simp [List.range_succ]
    have hfirst : byteAt? data offset = some (byteAt (data.drop offset) 0) :=
      hbyte (i := 0) (by decide)
    rw [hfirst, hbyte (by decide), hbyte (by decide), hfield]
    simp only [Option.bind_some]
    by_cases hkind : (data.drop offset).take 3 = [0x17, 0x03, 0x03]
    · rw [if_neg (htype.mp hkind), if_neg (not_not.mpr hkind)]
      have hleft : data.length - (offset + 5) = data.length - offset - 5 := by omega
      rw [hleft]
      split
      · rfl
      · rw [← Nat.add_assoc]
        rfl
    · have hother := not_not.mp (mt htype.mpr hkind)
      rw [if_pos hother, if_pos hkind]
      rfl

/-- With a turn for every five bytes, and one more, the loop returns. -/
theorem scanRecords_done {offset turns : Nat} (h : offset ≤ data.length)
    (hturns : data.length - offset < 5 * turns) :
    scanRecords data turns offset = .done (isCompleteTlsApplicationData (data.drop offset)) := by
  induction turns generalizing offset with
  | zero => exact absurd hturns (Nat.not_lt_zero _)
  | succ turns ih =>
    rw [scanRecords]
    by_cases hend : offset < data.length
    · have hlen : (data.drop offset).length = data.length - offset := List.length_drop
      have hne : data.drop offset ≠ [] := by
        apply List.ne_nil_of_length_pos
        omega
      have hfield : ofBe16 ((data.drop offset).getD 3 0) ((data.drop offset).getD 4 0) =
          be16At (data.drop offset) 3 := rfl
      rw [if_pos hend, scanRecord?_eq hend, isCompleteTlsApplicationData, dif_neg hne]
      simp only [hfield]
      by_cases hshort : (data.drop offset).length < 5
      · rw [if_pos hshort, if_pos hshort]
      · rw [if_neg hshort, if_neg hshort]
        by_cases hkind : (data.drop offset).take 3 ≠ [0x17, 0x03, 0x03]
        · rw [if_pos hkind, if_pos hkind]
        · rw [if_neg hkind, if_neg hkind]
          by_cases hbody : (data.drop offset).length - 5 < be16At (data.drop offset) 3
          · rw [if_pos hbody, if_pos hbody]
          · rw [if_neg hbody, if_neg hbody, List.drop_drop]
            apply ih
            · omega
            · omega
    · have heq : offset = data.length := by omega
      rw [if_neg hend, heq, List.drop_length, isCompleteTlsApplicationData, dif_pos rfl]
      simp

theorem TlsRecord.front_applicationData {r : TlsRecord} (h : r.ApplicationData) (rest : Bytes) :
    (r.bytes ++ rest).take 3 = [0x17, 0x03, 0x03] := by
  obtain ⟨htype,hversion⟩ := h
  simp [TlsRecord.bytes, TlsRecord.header, htype, hversion]

/-- Exactly the concatenations of records of application data. -/
theorem isCompleteTlsApplicationData_iff (data : Bytes) :
    isCompleteTlsApplicationData data = true ↔ WholeRecords TlsRecord.ApplicationData data := by
  induction data using isCompleteTlsApplicationData.induct with
  | case1 =>
    rw [isCompleteTlsApplicationData, dif_pos rfl]
    simp [WholeRecords.nil]
  | case2 data hne hshort =>
    rw [isCompleteTlsApplicationData, dif_neg hne, if_pos hshort]
    simp only [Bool.false_eq_true, false_iff]
    intro h
    obtain ⟨r,rest,-,-,rfl⟩ := h.front hne
    rw [r.front_length] at hshort
    omega
  | case3 data hne hshort hkind =>
    rw [isCompleteTlsApplicationData, dif_neg hne, if_neg hshort, if_pos hkind]
    simp only [Bool.false_eq_true, false_iff]
    intro h
    obtain ⟨r,rest,hr,-,rfl⟩ := h.front hne
    exact hkind (TlsRecord.front_applicationData hr rest)
  | case4 data hne hshort hkind recordLen hbody =>
    rw [isCompleteTlsApplicationData, dif_neg hne, if_neg hshort, if_neg hkind]
    simp only [recordLen] at hbody
    rw [if_pos hbody]
    simp only [Bool.false_eq_true, false_iff]
    intro h
    obtain ⟨r,rest,-,-,rfl⟩ := h.front hne
    have hfield : ofBe16 ((r.bytes ++ rest).getD 3 0) ((r.bytes ++ rest).getD 4 0) =
        r.body.length := r.front_bodyLen rest
    rw [hfield, r.front_length] at hbody
    omega
  | case5 data hne hshort hkind recordLen hbody ih =>
    rw [isCompleteTlsApplicationData, dif_neg hne, if_neg hshort, if_neg hkind]
    simp only [recordLen] at hbody ih
    rw [if_neg hbody, ih]
    constructor
    · intro h
      obtain ⟨r,htype,hversion,heq⟩ := TlsRecord.of_front (Nat.not_lt.mp hshort) (Nat.not_lt.mp hbody)
      have hthree := not_not.mp hkind
      rw [take_eq_map_byteAt (by omega)] at hthree
      simp only [List.range_succ, List.range_zero, List.nil_append, List.cons_append, List.map_cons,
        List.map_nil, List.cons.injEq, and_true] at hthree
      rw [heq]
      apply WholeRecords.cons _ h
      rw [TlsRecord.ApplicationData, htype, hversion, hthree.1, hthree.2.1, hthree.2.2]
      exact ⟨rfl,rfl⟩
    · intro h
      obtain ⟨r,rest,-,hrest,rfl⟩ := h.front hne
      have hfield : ofBe16 ((r.bytes ++ rest).getD 3 0) ((r.bytes ++ rest).getD 4 0) =
          r.body.length := r.front_bodyLen rest
      rw [hfield, r.front_drop]
      exact hrest

/-! ## The switch -/

/-- Command 2 goes out with whole records of application data, whatever the state and the peer. -/
theorem commandFor_direct {s : VisionUplinkState} {peer : Bool}
    (h : (s.commandFor data peer).1.direct = true) :
    data ≠ [] ∧ WholeRecords TlsRecord.ApplicationData data := by
  rw [VisionUplinkState.commandFor] at h
  dsimp only at h
  by_cases hhello : isTlsHandshake data = true
  · rw [if_pos hhello] at h
    cases h
  · rw [if_neg hhello] at h
    by_cases hdirect : VisionUplinkState.wantsDirect (s.traffic.filterTls data) data peer = true
    · simp only [VisionUplinkState.wantsDirect, Bool.and_eq_true] at hdirect
      obtain ⟨⟨⟨-,hstart⟩,-⟩,hcomplete⟩ := hdirect
      refine ⟨?_,(isCompleteTlsApplicationData_iff data).mp hcomplete⟩
      rintro rfl
      cases hstart
    · rw [if_neg hdirect] at h
      split at h <;> cases h

/-- What a write carries of the local stream. -/
def UplinkWrite.content : UplinkWrite → Bytes
  | .block content _ _ => content.getD []
  | .plain data => data

def localStream (writes : List UplinkWrite) : Bytes := writes.flatMap UplinkWrite.content

/-- What `bridge_vision_stream` writes behind the request. -/
def visionWrites (uuid : Uuid) (firstPayload : Option Bytes) (events : List BridgeEvent) :
    List UplinkWrite :=
  .block firstPayload 0 (some uuid) ::
    ((VisionBridge.start uuid).run events).2.writes.map Write.write

/-- Wherever a run switches to direct mode, the local stream is at the end of a record. -/
def SwitchesAtBoundaries (writes : List UplinkWrite) : Prop :=
  ∀ before switch after, writes = before ++ switch :: after → switch.direct = true →
    AtBoundary (localStream (before ++ [switch]))

/-- What a switch goes out with is whole records of application data. So it ends where a record
ends, if it begins where one does. -/
structure SwitchesBehindRecords (writes : List UplinkWrite) : Prop where
  records : ∀ switch ∈ writes, switch.direct = true →
    switch.content ≠ [] ∧ WholeRecords TlsRecord.ApplicationData switch.content
  boundary : ∀ before switch after, writes = before ++ switch :: after → switch.direct = true →
    AtBoundary (localStream before) → AtBoundary (localStream (before ++ [switch]))

theorem SwitchesBehindRecords.of_records {writes : List UplinkWrite}
    (h : ∀ switch ∈ writes, switch.direct = true →
      switch.content ≠ [] ∧ WholeRecords TlsRecord.ApplicationData switch.content) :
    SwitchesBehindRecords writes where
  records := h
  boundary before switch after heq hdirect hbefore := by
    have hmem : switch ∈ writes := by simp [heq]
    have hrecords := (h switch hmem hdirect).2
    rw [localStream, List.flatMap_append, List.flatMap_singleton]
    exact hbefore.append (hrecords.mono fun _ _ => trivial)

/-- The block of a chunk is direct if its command is. -/
theorem block_direct {s : VisionUplinkState} {peer : Bool}
    (h : (UplinkWrite.block (some data) (s.commandFor data peer).1.command none).direct = true) :
    data ≠ [] ∧ WholeRecords TlsRecord.ApplicationData data := by
  simp only [UplinkWrite.direct, decide_eq_true_eq] at h
  obtain ⟨hcmd,-⟩ | ⟨hcmd,-⟩ | ⟨-,-,hdirect⟩ := s.commandFor_cases data peer
  · rw [hcmd] at h
    cases h
  · rw [hcmd] at h
    cases h
  · exact commandFor_direct hdirect

theorem bridgeUplink_switch (s : VisionUplinkState) (reads : List Bytes) :
    ∀ switch ∈ bridgeUplink s reads, switch.direct = true →
      switch.content ≠ [] ∧ WholeRecords TlsRecord.ApplicationData switch.content := by
  induction reads generalizing s with
  | nil => simp [bridgeUplink]
  | cons data reads ih =>
    rw [bridgeUplink]
    split
    · simp
    split
    · intro switch hmem hdirect
      rcases List.mem_cons.mp hmem with rfl | hmem
      · exact block_direct hdirect
      · exact ih _ switch hmem hdirect
    · intro switch hmem hdirect
      rcases List.mem_cons.mp hmem with rfl | hmem
      · cases hdirect
      · exact ih s switch hmem hdirect

theorem localStep_switch (b : VisionBridge) (data : Bytes)
    (h : (b.localStep data).2.write.direct = true) :
    (b.localStep data).2.write.content ≠ [] ∧
      WholeRecords TlsRecord.ApplicationData (b.localStep data).2.write.content := by
  rw [VisionBridge.localStep] at h ⊢
  dsimp only at h ⊢
  split at h
  case isTrue hpad =>
    rw [if_pos hpad]
    exact block_direct h
  case isFalse => cases h

theorem run_switch (b : VisionBridge) (events : List BridgeEvent) :
    ∀ w ∈ (b.run events).2.writes, w.write.direct = true →
      w.write.content ≠ [] ∧ WholeRecords TlsRecord.ApplicationData w.write.content := by
  induction events generalizing b with
  | nil => simp [VisionBridge.run]
  | cons event events ih =>
    intro w hmem hdirect
    rw [VisionBridge.run] at hmem
    rcases List.mem_append.mp hmem with hmem | hmem
    · cases event with
      | remoteRead read ahead => cases hmem
      | localRead read =>
        rw [List.mem_singleton.mp hmem] at hdirect ⊢
        exact localStep_switch b read.1 hdirect
    · exact ih _ w hmem hdirect

/-- The scan returns for all bytes, and says whether they are whole records of application data.
So whatever the uplink switches with is such records, in every state and on every run of the two
bridges; what lies in front of it has to end a record by itself. -/
theorem direct_mode_behind_records :
    (∀ data turns, data.length < 5 * turns →
      scanRecords data turns 0 = .done (isCompleteTlsApplicationData data)) ∧
    (∀ data, isCompleteTlsApplicationData data = true ↔
      WholeRecords TlsRecord.ApplicationData data) ∧
    (∀ (s : VisionUplinkState) data peer, (s.commandFor data peer).1.direct = true →
      data ≠ [] ∧ WholeRecords TlsRecord.ApplicationData data) ∧
    (∀ uuid firstPayload reads,
      SwitchesBehindRecords (bridgeVlessStream uuid firstPayload reads)) ∧
    ∀ uuid firstPayload events, SwitchesBehindRecords (visionWrites uuid firstPayload events) := by
  refine ⟨?_,isCompleteTlsApplicationData_iff,fun _ _ _ => commandFor_direct,?_,?_⟩
  · intro data turns hturns
    exact scanRecords_done (Nat.zero_le _) hturns
  · intro uuid firstPayload reads
    apply SwitchesBehindRecords.of_records
    intro switch hmem hdirect
    rcases List.mem_cons.mp hmem with rfl | hmem
    · cases hdirect
    · exact bridgeUplink_switch .new reads switch hmem hdirect
  · intro uuid firstPayload events
    apply SwitchesBehindRecords.of_records
    intro switch hmem hdirect
    rcases List.mem_cons.mp hmem with rfl | hmem
    · cases hdirect
    · obtain ⟨w,hw,rfl⟩ := List.mem_map.mp hmem
      exact run_switch _ events w hw hdirect

/-! ## A switch within a record -/

/-- Behind the record at the front there are whole records again. -/
theorem WholeRecords.behind_front (h : WholeRecords kind data) (hne : data ≠ []) :
    5 + be16At data 3 ≤ data.length ∧ WholeRecords kind (data.drop (5 + be16At data 3)) := by
  obtain ⟨r,rest,-,hrest,rfl⟩ := h.front hne
  rw [r.front_bodyLen, r.front_length, r.front_drop]
  exact ⟨by omega,hrest⟩

/-- Of a record of 16 KiB behind a handshake record, there are less than 16 KiB. -/
theorem not_atBoundary_within {chunk : Bytes} (h : chunk.length < 16384) :
    ¬ AtBoundary ([0x16, 0x03, 0x01, 0x00, 0x01, 0x00, 0x17, 0x03, 0x03, 0x40, 0x00] ++ chunk) := by
  intro hwhole
  have hone : be16At ([0x16, 0x03, 0x01, 0x00, 0x01, 0x00, 0x17, 0x03, 0x03, 0x40, 0x00] ++ chunk) 3 =
      1 := by
    simp [be16At, ofBe16]
  have hlen : be16At ([0x17, 0x03, 0x03, 0x40, 0x00] ++ chunk) 3 = ofBe16 0x40 0x00 := rfl
  have hsize : ofBe16 0x40 0x00 = 16384 := by simp [ofBe16]
  have hbehind := (hwhole.behind_front (by simp)).2
  rw [hone] at hbehind
  have hfits := (hbehind.behind_front (by simp)).1
  simp only [List.cons_append, List.nil_append, Nat.reduceAdd, List.drop_succ_cons,
    List.drop_zero] at hfits hlen
  rw [hlen, hsize] at hfits
  simp only [List.length_cons] at hfits
  omega

/-- A chunk with command 0 leaves everything but the traffic state as it is. -/
theorem localStep_padded {b : VisionBridge} {s : VisionUplinkState} (hpad : b.uplink.padding = true)
    (hcmd : b.uplink.commandFor data b.downlinkDirectConfirmed = (.padding 0, s)) :
    b.localStep data =
      ({ b with uplink := s }, ⟨b.remote.writeRoute, .block (some data) 0 none⟩) := by
  rw [VisionBridge.localStep, if_pos hpad]
  simp [hcmd, VisionUplinkDecision.padding]

theorem commandFor_header :
    VisionUplinkState.commandFor
        ⟨{ VisionTrafficState.new with packetFilterRemaining := 7, isTls := true }⟩
        [0x17, 0x03, 0x03, 0x40, 0x00] false =
      (.padding 0,
        ⟨{ VisionTrafficState.new with packetFilterRemaining := 6, isTls := true }⟩) := by
  simp [VisionUplinkState.commandFor, VisionUplinkState.wantsDirect, VisionTrafficState.filterTls,
    isTlsHandshake, startsWith, VisionTrafficState.new, visionUplinkDirectMinBytes]

/-- A chunk that reads like one large record ends the padding, wherever it stands. -/
theorem visionWrites_within (uuid : Uuid) {hello header chunk : LocalRead} {content : Bytes}
    (hhello : hello.1 = [0x16, 0x03, 0x01, 0x00, 0x01, 0x00])
    (hheader : header.1 = [0x17, 0x03, 0x03, 0x40, 0x00])
    (hchunk : chunk.1 = tlsApplicationData content) (hlong : 8187 ≤ content.length)
    (hlen : content.length < 65536) :
    visionWrites uuid none [.localRead hello, .localRead header, .localRead chunk] =
      [.block none 0 (some uuid), .block (some hello.1) 0 none, .block (some header.1) 0 none,
        .block (some (tlsApplicationData content)) 2 none] := by
  have hdirect := tlsApplicationData_direct hlong hlen
  have hfirst : (VisionBridge.start uuid).localStep hello.1 = _ :=
    localStep_padded rfl (by rw [hhello]; exact commandFor_hello)
  have hsecond : VisionBridge.localStep { VisionBridge.start uuid with
      uplink := ⟨{ VisionTrafficState.new with packetFilterRemaining := 7, isTls := true }⟩ }
      header.1 = _ := localStep_padded rfl (by rw [hheader]; exact commandFor_header)
  obtain ⟨-,hcmd,-⟩ | ⟨hrecord,-⟩ := commandFor_tls
    (s := ⟨{ VisionTrafficState.new with packetFilterRemaining := 6, isTls := true }⟩) rfl rfl
    (tlsApplicationData content)
  · have hthird : (VisionBridge.localStep { VisionBridge.start uuid with
        uplink := ⟨{ VisionTrafficState.new with packetFilterRemaining := 6, isTls := true }⟩ }
        chunk.1).2.write = .block (some (tlsApplicationData content)) 2 none := by
      rw [hchunk, ← hcmd]
      rfl
    simp only [visionWrites, VisionBridge.run, VisionBridge.step, Traffic.append, hfirst, hsecond,
      List.map_cons, List.map_nil, List.append_nil, List.singleton_append, hthird]
  · rw [hdirect] at hrecord
    cases hrecord

/-- Behind the header of a record of 16 KiB comes a chunk of 8 KiB that reads like one record:
the uplink switches with it, in the middle of the record. -/
theorem switch_within_record :
    ∃ hello header chunk : LocalRead, hello.1 = [0x16, 0x03, 0x01, 0x00, 0x01, 0x00] ∧
      header.1 = [0x17, 0x03, 0x03, 0x40, 0x00] ∧
      chunk.1 = tlsApplicationData (List.replicate 8187 0) ∧
      ¬ SwitchesAtBoundaries (visionWrites (Vector.replicate 16 7) none
        [.localRead hello, .localRead header, .localRead chunk]) := by
  obtain ⟨content,hcontent⟩ : ∃ content : Bytes, content = List.replicate 8187 0 := ⟨_,rfl⟩
  have hlen : content.length = 8187 := by rw [hcontent, List.length_replicate]
  have hchunk : (tlsApplicationData content).length = 8192 := by
    simp [tlsApplicationData, hlen]
  rw [← hcontent]
  refine ⟨⟨[0x16, 0x03, 0x01, 0x00, 0x01, 0x00],by simp [flowCopyBufferSize]⟩,
    ⟨[0x17, 0x03, 0x03, 0x40, 0x00],by simp [flowCopyBufferSize]⟩,
    ⟨tlsApplicationData content,by rw [hchunk, flowCopyBufferSize]; omega⟩,rfl,rfl,rfl,?_⟩
  rw [visionWrites_within _ rfl rfl rfl (by omega) (by omega)]
  intro h
  have hshort : (tlsApplicationData content).length < 16384 := by omega
  apply not_atBoundary_within hshort
  simpa [localStream, UplinkWrite.content] using h [_,_,_] _ [] rfl rfl

end AtlasKernel.Vless
