import AtlasKernel.Lib.ReadCuts
import AtlasKernel.Shadowsocks.TlsTicket

/-! How the server's handshake reaches an `SsrTlsTicketStream`: what one read makes of the
bytes that came, and where the reply must end for the stream to accept it.
Source: `shadowsocks/ssr/obfs/tls_ticket.rs`. -/
namespace AtlasKernel.Shadowsocks
open AtlasKernel.Lib

/-! ## Records that come in pieces -/

/-- `ssr_tls_ticket_drain_records` without the flag. -/
def drainOutcome (raw output : Bytes) : IoResult Unit × Bytes × Bytes :=
  let r := ssrTlsTicketDrainRecords raw output false
  (r.1.map fun _ => (), r.2)

/-- A whole record at the front. -/
def RecordFirst (raw : Bytes) (size : Nat) : Prop :=
  raw.take 3 = [0x17, 0x03, 0x03] ∧ size = 5 + ofBe16 (raw.getD 3 0) (raw.getD 4 0) ∧ size ≤ raw.length

theorem RecordFirst.five_le {raw : Bytes} {size : Nat} (h : RecordFirst raw size) : 5 ≤ raw.length := by
  obtain ⟨_,rfl,hle⟩ := h
  exact (Nat.le_add_right ..).trans hle

theorem RecordFirst.append {raw : Bytes} {size : Nat} (h : RecordFirst raw size) (more : Bytes) :
    RecordFirst (raw ++ more) size := by
  have hfive := h.five_le
  obtain ⟨hhead,hsize,hle⟩ := h
  refine ⟨?_, ?_, ?_⟩
  · rw [List.take_append_of_le_length (by omega), hhead]
  · rw [List.getD_append _ _ _ _ (by omega), List.getD_append _ _ _ _ (by omega), hsize]
  · rw [List.length_append]
    omega

theorem drain_record {raw output : Bytes} {size : Nat} (h : RecordFirst raw size) (drained : Bool) :
    ssrTlsTicketDrainRecords raw output drained =
      ssrTlsTicketDrainRecords (raw.drop size) (output ++ (raw.take size).drop 5) true := by
  have hfive := h.five_le
  obtain ⟨hhead,rfl,hle⟩ := h
  rw [ssrTlsTicketDrainRecords, dif_neg (Nat.not_lt.mpr hfive), if_neg (by rw [hhead]; decide)]
  dsimp only
  rw [if_neg (Nat.not_lt.mpr hle)]

/-- The flag says no more than that something has been drained. -/
theorem drain_flag (raw output : Bytes) (drained : Bool) :
    ((ssrTlsTicketDrainRecords raw output drained).1.map fun _ => (),
      (ssrTlsTicketDrainRecords raw output drained).2) = drainOutcome raw output := by
  rw [drainOutcome, ssrTlsTicketDrainRecords]
  conv_rhs => rw [ssrTlsTicketDrainRecords]
  split
  · rfl
  · split
    · rfl
    · dsimp only
      split
      · rfl
      · rfl

theorem drainOutcome_record {raw output : Bytes} {size : Nat} (h : RecordFirst raw size) :
    drainOutcome raw output = drainOutcome (raw.drop size) (output ++ (raw.take size).drop 5) := by
  rw [← drain_flag (raw.drop size) _ true, drainOutcome, drain_record h]

/-- What the loop stops at: less than a record, or something else than a record. -/
theorem drain_cases (raw output : Bytes) (drained : Bool) :
    (∃ size, RecordFirst raw size) ∨
    ssrTlsTicketDrainRecords raw output drained = (.ok drained, raw, output) ∨
    (5 ≤ raw.length ∧ raw.take 3 ≠ [0x17, 0x03, 0x03] ∧
      ssrTlsTicketDrainRecords raw output drained =
        (.error ⟨.invalidData, "ShadowsocksR TLS ticket record header is invalid"⟩, [], output)) := by
  rw [ssrTlsTicketDrainRecords]
  split
  case isTrue => exact .inr (.inl rfl)
  case isFalse hlong =>
    split
    case isTrue hhead => exact .inr (.inr ⟨Nat.not_lt.mp hlong, hhead, rfl⟩)
    case isFalse hhead =>
      dsimp only
      split
      case isTrue => exact .inr (.inl rfl)
      case isFalse hwhole => exact .inl ⟨_, not_not.mp hhead, rfl, Nat.not_lt.mp hwhole⟩

/-- Less than a record. -/
def Unfinished (raw : Bytes) : Prop :=
  raw.length < 5 ∨
    raw.take 3 = [0x17, 0x03, 0x03] ∧ raw.length < 5 + ofBe16 (raw.getD 3 0) (raw.getD 4 0)

theorem Unfinished.drain {raw : Bytes} (h : Unfinished raw) (output : Bytes) (drained : Bool) :
    ssrTlsTicketDrainRecords raw output drained = (.ok drained, raw, output) := by
  obtain ⟨size,hfirst⟩ | hwait | ⟨hfive,hhead,_⟩ := drain_cases raw output drained
  · have hfive := hfirst.five_le
    obtain ⟨_,hsize,hle⟩ := hfirst
    obtain hshort | ⟨_,hlt⟩ := h
    · omega
    · omega
  · exact hwait
  · obtain hshort | ⟨hhead',_⟩ := h
    · omega
    · exact absurd hhead' hhead

/-- A whole record at the front is one that `ssr_tls_ticket_pack_record` makes. -/
theorem RecordFirst.packed {raw : Bytes} {size : Nat} (h : RecordFirst raw size) :
    raw = ssrTlsTicketPackRecord ((raw.take size).drop 5) ++ raw.drop size ∧
      ((raw.take size).drop 5).length < 65536 := by
  have hfive := h.five_le
  obtain ⟨hhead,hsize,hle⟩ := h
  have hlen : ((raw.take size).drop 5).length = ofBe16 (raw.getD 3 0) (raw.getD 4 0) := by
    rw [List.length_drop, List.length_take]
    omega
  have hfront : raw.take 5 = raw.take 3 ++ [raw.getD 3 0, raw.getD 4 0] := by
    rw [take_eq_map_byteAt hfive, take_eq_map_byteAt (by omega)]
    rfl
  rw [hhead] at hfront
  refine ⟨?_, hlen ▸ ofBe16_lt ..⟩
  rw [ssrTlsTicketPackRecord, hlen, be16_ofBe16, ← hfront]
  calc
    raw = raw.take size ++ raw.drop size := (List.take_append_drop ..).symm
    _ = (raw.take size).take 5 ++ (raw.take size).drop 5 ++ raw.drop size := by
      rw [List.take_append_drop 5]
    _ = raw.take 5 ++ (raw.take size).drop 5 ++ raw.drop size := by
      rw [List.take_take, Nat.min_eq_left (by omega)]

theorem recordFirst_pack {payload : Bytes} (h : payload.length < 65536) (rest : Bytes) :
    RecordFirst (ssrTlsTicketPackRecord payload ++ rest) (5 + payload.length) := by
  refine ⟨rfl, ?_, ?_⟩
  · exact congrArg (5 + ·) (ofBe16_of_lt h).symm
  · simp only [ssrTlsTicketPackRecord, List.length_append, List.length_cons, List.length_nil, be16_length]
    omega

/-- Records at the front are drained, whatever comes behind them. -/
theorem AppRecords.outcome {records payload : Bytes} (h : AppRecords records payload)
    (more output : Bytes) :
    drainOutcome (records ++ more) output = drainOutcome more (output ++ payload) := by
  induction h generalizing output with
  | nil => rw [List.nil_append, List.append_nil]
  | @cons payload records rest hlen _ ih =>
    have hlength : (ssrTlsTicketPackRecord payload).length = 5 + payload.length := by
      simp only [ssrTlsTicketPackRecord, List.length_append, List.length_cons, List.length_nil,
        be16_length]
    rw [List.append_assoc, drainOutcome_record (recordFirst_pack hlen _), List.drop_left' hlength,
      List.take_left' hlength, ih, List.append_assoc]
    rfl

/-- What the loop has drained were whole records, and it stops before less than one. -/
theorem drain_ok {raw output raw' output' : Bytes} {drained drained' : Bool}
    (h : ssrTlsTicketDrainRecords raw output drained = (.ok drained', raw', output')) :
    ∃ records payload, raw = records ++ raw' ∧ output' = output ++ payload ∧
      AppRecords records payload ∧ Unfinished raw' := by
  induction raw, output, drained using ssrTlsTicketDrainRecords.induct with
  | case1 raw output drained hshort =>
    rw [ssrTlsTicketDrainRecords, dif_pos hshort] at h
    cases h
    exact ⟨[], [], rfl, (List.append_nil _).symm, .nil, .inl hshort⟩
  | case2 raw output drained hlong hhead =>
    rw [ssrTlsTicketDrainRecords, dif_neg hlong, if_pos hhead] at h
    cases h
  | case3 raw output drained hlong hhead size hwait =>
    rw [ssrTlsTicketDrainRecords, dif_neg hlong, if_neg hhead] at h
    dsimp only at h
    rw [if_pos hwait] at h
    cases h
    exact ⟨[], [], rfl, (List.append_nil _).symm, .nil, .inr ⟨not_not.mp hhead, hwait⟩⟩
  | case4 raw output drained hlong hhead size hwhole ih =>
    have hfirst : RecordFirst raw (5 + size) := ⟨not_not.mp hhead, rfl, Nat.not_lt.mp hwhole⟩
    rw [drain_record hfirst] at h
    obtain ⟨records,payload,hdrop,hout,hrecords,hstop⟩ := ih h
    obtain ⟨hpacked,hlt⟩ := hfirst.packed
    refine ⟨_, _, ?_, ?_, .cons hlt hrecords, hstop⟩
    · rw [List.append_assoc, ← hdrop]
      exact hpacked
    · rw [hout, List.append_assoc]

/-- What has been drained is drained, whatever comes behind it. -/
theorem drain_append {raw output raw' output' : Bytes} {drained drained' : Bool}
    (h : ssrTlsTicketDrainRecords raw output drained = (.ok drained', raw', output')) (more : Bytes) :
    drainOutcome (raw ++ more) output = drainOutcome (raw' ++ more) output' := by
  obtain ⟨records,payload,rfl,rfl,hrecords,_⟩ := drain_ok h
  rw [List.append_assoc, hrecords.outcome]

/-- A header that is not one stays so. -/
theorem drain_error {raw output raw' output' : Bytes} {drained : Bool} {err : IoError}
    (h : ssrTlsTicketDrainRecords raw output drained = (.error err, raw', output')) (more : Bytes) :
    (drainOutcome (raw ++ more) output).1 = .error err := by
  induction hn : raw.length using Nat.strong_induction_on generalizing raw output drained with
  | _ n ih =>
    obtain ⟨size,hfirst⟩ | hwait | ⟨hfive,hhead,hbad⟩ := drain_cases raw output drained
    · have hle := hfirst.2.2
      have hfive : 5 ≤ size := by
        rw [hfirst.2.1]
        exact Nat.le_add_right ..
      rw [drain_record hfirst] at h
      rw [drainOutcome_record (hfirst.append more), List.drop_append_of_le_length hle,
        List.take_append_of_le_length hle]
      exact ih _ (by rw [List.length_drop]; omega) h rfl
    · rw [hwait] at h
      cases h
    · rw [hbad] at h
      cases h
      have hhead' : (raw ++ more).take 3 ≠ [0x17, 0x03, 0x03] := by
        rwa [List.take_append_of_le_length (by omega)]
      obtain ⟨size,hfirst⟩ | hwait | ⟨_,_,hbad'⟩ := drain_cases (raw ++ more) output' false
      · exact absurd hfirst.1 hhead'
      · rw [ssrTlsTicketDrainRecords, dif_neg (by rw [List.length_append]; omega), if_pos hhead'] at hwait
        cases hwait
      · rw [drainOutcome, hbad']
        rfl

/-- Behind the loop nothing is left to drain. -/
theorem drain_settled {raw output raw' output' : Bytes} {drained drained' : Bool}
    (h : ssrTlsTicketDrainRecords raw output drained = (.ok drained', raw', output')) :
    drainOutcome raw' output' = (.ok (), raw', output') := by
  obtain ⟨_,_,_,_,_,hstop⟩ := drain_ok h
  rw [drainOutcome, hstop.drain]
  rfl

/-- Whole records with `payload`, and perhaps the front of one more. -/
def Carries (bytes payload : Bytes) : Prop :=
  ∃ records tail, bytes = records ++ tail ∧ AppRecords records payload ∧ Unfinished tail

theorem drainOutcome_ok_iff (bytes payload : Bytes) :
    (∃ tail, drainOutcome bytes [] = (.ok (), tail, payload)) ↔ Carries bytes payload := by
  constructor
  · rintro ⟨tail,hdrain⟩
    rw [drainOutcome] at hdrain
    cases hr : ssrTlsTicketDrainRecords bytes [] false with
    | mk result rest =>
      rw [hr] at hdrain
      cases result with
      | error err => cases hdrain
      | ok drained =>
        obtain ⟨_,rfl⟩ := Prod.mk.inj hdrain
        obtain ⟨records,payload',hsplit,hout,hrecords,hstop⟩ := drain_ok hr
        cases hout
        exact ⟨records, tail, hsplit, hrecords, hstop⟩
  · rintro ⟨records,tail,rfl,hrecords,hstop⟩
    refine ⟨tail, ?_⟩
    rw [hrecords.outcome, drainOutcome, hstop.drain]
    rfl

/-- The output grows at its end. -/
theorem drain_output (raw front output : Bytes) (drained : Bool) :
    ssrTlsTicketDrainRecords raw (front ++ output) drained =
      ((ssrTlsTicketDrainRecords raw output drained).1,
        (ssrTlsTicketDrainRecords raw output drained).2.1,
        front ++ (ssrTlsTicketDrainRecords raw output drained).2.2) := by
  induction raw, output, drained using ssrTlsTicketDrainRecords.induct with
  | case1 raw output drained hshort =>
    rw [ssrTlsTicketDrainRecords, ssrTlsTicketDrainRecords, dif_pos hshort, dif_pos hshort]
  | case2 raw output drained hlong hhead =>
    rw [ssrTlsTicketDrainRecords, ssrTlsTicketDrainRecords, dif_neg hlong, dif_neg hlong, if_pos hhead,
      if_pos hhead]
  | case3 raw output drained hlong hhead size hwait =>
    rw [ssrTlsTicketDrainRecords, ssrTlsTicketDrainRecords, dif_neg hlong, dif_neg hlong, if_neg hhead,
      if_neg hhead]
    dsimp only
    rw [if_pos hwait, if_pos hwait]
  | case4 raw output drained hlong hhead size hwhole ih =>
    have hfirst : RecordFirst raw (5 + size) := ⟨not_not.mp hhead, rfl, Nat.not_lt.mp hwhole⟩
    rw [drain_record hfirst, drain_record hfirst, List.append_assoc]
    exact ih

theorem drainOutcome_output (raw front output : Bytes) :
    drainOutcome raw (front ++ output) =
      ((drainOutcome raw output).1, (drainOutcome raw output).2.1,
        front ++ (drainOutcome raw output).2.2) := by
  rw [drainOutcome, drainOutcome, drain_output]

theorem drain_true {raw output raw' output' : Bytes} {drained : Bool}
    (h : ssrTlsTicketDrainRecords raw output true = (.ok drained, raw', output')) : drained = true := by
  induction hn : raw.length using Nat.strong_induction_on generalizing raw output with
  | _ n ih =>
    obtain ⟨size,hfirst⟩ | hwait | ⟨_,_,hbad⟩ := drain_cases raw output true
    · have hle := hfirst.2.2
      have hfive : 5 ≤ size := by
        rw [hfirst.2.1]
        exact Nat.le_add_right ..
      rw [drain_record hfirst] at h
      exact ih _ (by rw [List.length_drop]; omega) h rfl
    · rw [hwait] at h
      cases h
      rfl
    · rw [hbad] at h
      cases h

/-- If nothing has been drained, the output is what it was. -/
theorem drain_false {raw output raw' output' : Bytes}
    (h : ssrTlsTicketDrainRecords raw output false = (.ok false, raw', output')) : output' = output := by
  obtain ⟨size,hfirst⟩ | hwait | ⟨_,_,hbad⟩ := drain_cases raw output false
  · rw [drain_record hfirst] at h
    cases drain_true h
  · rw [hwait] at h
    cases h
    rfl
  · rw [hbad] at h
    cases h

/-! ## The stream while it waits, and while it is open -/

namespace SsrTlsTicketStream
section
variable (env : TicketEnv) (key : Bytes) (clientId : ClientId) (wire : Bytes) (cut : Option Nat)

/-- Bytes are collected until there are as many as a handshake has. -/
structure Waiting (s : SsrTlsTicketStream) : Prop where
  status : s.handshakeStatus ≠ 8
  keyed : s.key = key ∧ s.clientId = clientId
  idle : s.pendingWrite = none
  empty : s.readBuffer = []
  flawless : Flawless s.source
  bytes : s.readRaw ++ sourceBytes s.source = wire
  cut_eq : cut = if s.readRaw.length < 76 then firstCut 8192 76 s.readRaw.length s.source
    else some s.readRaw.length

/-- The first `n` bytes were a handshake, and the records behind them are being drained. -/
structure Opened (n : Nat) (delivered : Bytes) (s : SsrTlsTicketStream) : Prop where
  status : s.handshakeStatus = 8
  cut_eq : cut = some n
  verified : ssrTlsTicketVerifyServerHandshake env (wire.take n) key clientId = .ok ()
  flawless : Flawless s.source
  drains : drainOutcome (s.readRaw ++ sourceBytes s.source) (delivered ++ s.readBuffer) =
    drainOutcome (wire.drop n) []

def Refused : Prop := ∃ n err, cut = some n ∧
  ssrTlsTicketVerifyServerHandshake env (wire.take n) key clientId = .error err

def Broken : Prop := ∃ n err, cut = some n ∧
  ssrTlsTicketVerifyServerHandshake env (wire.take n) key clientId = .ok () ∧
    (drainOutcome (wire.drop n) []).1 = .error err

end

variable {env : TicketEnv} {key : Bytes} {clientId : ClientId} {wire : Bytes} {cut : Option Nat}
  {s : SsrTlsTicketStream}

theorem Waiting.read (h : Waiting key clientId wire cut s) (hshort : s.readRaw.length < 76)
    {filled : Bytes} {source : Source UInt8} (hr : Lib.pollRead 8192 s.source = (.ready (.ok filled), source))
    (hp : filled ≠ []) :
    Waiting key clientId wire cut { s with source := source, readRaw := s.readRaw ++ filled } := by
  refine ⟨h.status, h.keyed, h.idle, h.empty, (h.flawless.read hr).1, ?_, ?_⟩
  · rw [← h.bytes, (pollRead_ok hr).1, List.append_assoc]
  · rw [h.cut_eq, if_pos hshort, firstCut_read hr hp]
    dsimp only
    rw [List.length_append]
    split
    case isTrue hle => rw [if_neg (Nat.not_lt.mpr hle)]
    case isFalse hlt => rw [if_pos (Nat.not_le.mp hlt)]

/-- What comes of the reads while the handshake is awaited. -/
def WaitingEnds (env : TicketEnv) (key : Bytes) (clientId : ClientId) (wire : Bytes) (cut : Option Nat)
    (r : Received × SsrTlsTicketStream) : Prop :=
  match r.1 with
  | .answer .pending => Waiting key clientId wire cut r.2 ∧ r.2.readRaw.length < 76
  | .answer (.ready (.ok out)) =>
    out = [] ∧ cut = none ∧ Waiting key clientId wire cut r.2 ∧ r.2.readRaw.length < 76
  | .answer (.ready (.error _)) => Refused env key clientId wire cut
  | .verified => ∃ n, cut = some n ∧
      ssrTlsTicketVerifyServerHandshake env (wire.take n) key clientId = .ok () ∧
      r.2.readRaw = [] ∧ r.2.readBuffer = [] ∧ sourceBytes r.2.source = wire.drop n ∧
      Flawless r.2.source

/-- At the head of the loop. -/
theorem Waiting.serve (h : Waiting key clientId wire cut s) (room : Nat) :
    (s.serveBuffered env room = (none, s) ∧ s.readRaw.length < 76) ∨
    (∃ err, s.serveBuffered env room = (some (.answer (.ready (.error err))), s) ∧
      Refused env key clientId wire cut) ∨
    (s.serveBuffered env room = (some .verified, { s with readRaw := [] }) ∧
      WaitingEnds env key clientId wire cut (.verified, { s with readRaw := [] })) := by
  rw [serveBuffered, if_neg h.status]
  by_cases hshort : s.readRaw.length < 76
  · refine .inl ⟨if_neg ?_, hshort⟩
    rw [ssrTlsTicketHasServerHandshake, decide_eq_true_eq]
    omega
  · have hcut : cut = some s.readRaw.length := by rw [h.cut_eq, if_neg hshort]
    have htake : wire.take s.readRaw.length = s.readRaw := by rw [← h.bytes, List.take_left]
    have hdrop : wire.drop s.readRaw.length = sourceBytes s.source := by rw [← h.bytes, List.drop_left]
    right
    rw [if_pos (by rw [ssrTlsTicketHasServerHandshake, decide_eq_true_eq]; omega)]
    cases hverify : ssrTlsTicketVerifyServerHandshake env s.readRaw s.key s.clientId with
    | error err =>
      rw [h.keyed.1, h.keyed.2] at hverify
      exact .inl ⟨err, rfl, s.readRaw.length, err, hcut, by rw [htake, hverify]⟩
    | ok _ =>
      rw [h.keyed.1, h.keyed.2] at hverify
      exact .inr ⟨rfl, s.readRaw.length, hcut, by rw [htake, hverify], rfl, h.empty, hdrop.symm,
        h.flawless⟩

/-- The loop reads on only while the answer is not there. -/
theorem Waiting.unserved (h : Waiting key clientId wire cut s) {room : Nat} {s' : SsrTlsTicketStream}
    (hs : s.serveBuffered env room = (none, s')) : s' = s ∧ s.readRaw.length < 76 := by
  obtain ⟨hnone,hshort⟩ | ⟨err,herr,_⟩ | ⟨hverified,_⟩ := @Waiting.serve env _ _ _ _ _ h room
  · cases hs.symm.trans hnone
    exact ⟨rfl,hshort⟩
  · cases hs.symm.trans herr
  · cases hs.symm.trans hverified

theorem Waiting.receive (h : Waiting key clientId wire cut s) (room : Nat) :
    WaitingEnds env key clientId wire cut (s.receiveLoop env room) := by
  fun_induction receiveLoop env s room with
  | case1 s r s' hs =>
    obtain ⟨hnone,_⟩ | ⟨err,herr,hrefused⟩ | ⟨hverified,hends⟩ := @Waiting.serve env _ _ _ _ _ h room
    · cases hs.symm.trans hnone
    · cases hs.symm.trans herr
      exact hrefused
    · cases hs.symm.trans hverified
      exact hends
  | case2 s s' hs source hr =>
    obtain ⟨rfl,hshort⟩ := h.unserved hs
    refine ⟨⟨h.status, h.keyed, h.idle, h.empty, (h.flawless.read hr).1, ?_, ?_⟩, hshort⟩
    · have hbytes := h.bytes
      rw [pollRead_pending hr] at hbytes
      exact hbytes
    · rw [h.cut_eq, if_pos hshort, if_pos hshort, firstCut_pending hr]
  | case3 s s' hs err source hr =>
    obtain ⟨rfl,_⟩ := h.unserved hs
    exact absurd rfl ((h.flawless.read hr).2 err)
  | case4 s s' hs source hr =>
    obtain ⟨rfl,hshort⟩ := h.unserved hs
    have hcut : cut = none := by rw [h.cut_eq, if_pos hshort, firstCut_end hr]
    obtain ⟨rfl,_⟩ := (pollRead_ok hr).2.2.2 rfl
    exact ⟨rfl, hcut, h, hshort⟩
  | case5 s s' hs filled source hr hp ih =>
    obtain ⟨rfl,hshort⟩ := h.unserved hs
    exact ih (h.read hshort hr hp)

variable {n : Nat} {delivered : Bytes}

/-- What is buffered at the head of the loop goes to the caller, or is drained without a byte. -/
theorem Opened.serve (h : Opened env key clientId wire cut n delivered s) (hempty : s.readBuffer = [])
    {room : Nat} (hroom : 0 < room) :
    (∃ err s', s.serveBuffered env room = (some (.answer (.ready (.error err))), s') ∧
      Broken env key clientId wire cut) ∨
    (∃ out s', s.serveBuffered env room = (some (.answer (.ready (.ok out))), s') ∧ out ≠ [] ∧
      Opened env key clientId wire cut n (delivered ++ out) s') ∨
    (∃ s', s.serveBuffered env room = (none, s') ∧ s'.readBuffer = [] ∧
      Opened env key clientId wire cut n delivered s' ∧
      drainOutcome s'.readRaw [] = (.ok (), s'.readRaw, [])) := by
  have hdrains := h.drains
  rw [hempty] at hdrains
  rw [serveBuffered, if_pos h.status, hempty]
  cases hd : ssrTlsTicketDrainRecords s.readRaw [] false with
  | mk result r =>
    obtain ⟨raw,output⟩ := r
    cases result with
    | error err =>
      refine .inl ⟨err, _, rfl, n, err, h.cut_eq, h.verified, ?_⟩
      have herr := drain_error hd (sourceBytes s.source)
      rw [drainOutcome_output] at hdrains
      rw [← hdrains]
      exact herr
    | ok drained =>
      have hmoved : ∀ out rest, out ++ rest = output →
          drainOutcome (raw ++ sourceBytes s.source) (delivered ++ out ++ rest) =
            drainOutcome (wire.drop n) [] := by
        intro out rest hsplit
        have happ := drain_append hd (sourceBytes s.source)
        rw [List.append_assoc, hsplit, drainOutcome_output, ← happ, ← drainOutcome_output, hdrains]
      have hsettled := drain_settled hd
      dsimp only
      split
      case h_1 out rest hout =>
        have hdrained : drainBuffer output room = some (out, rest) := by
          cases drained with
          | true => exact hout
          | false => cases hout
        obtain ⟨hsplit,hne⟩ := drainBuffer_some hdrained
        exact .inr (.inl ⟨out, _, rfl, hne, h.status, h.cut_eq, h.verified, h.flawless,
          hmoved out rest hsplit⟩)
      case h_2 hout =>
        have hnil : output = [] := by
          cases drained with
          | true => exact (drainBuffer_none hout).resolve_right (Nat.ne_of_gt hroom)
          | false => exact drain_false hd
        subst hnil
        refine .inr (.inr ⟨_, rfl, rfl, ⟨h.status, h.cut_eq, h.verified, h.flawless, ?_⟩, hsettled⟩)
        have hnone := hmoved [] [] rfl
        rw [List.append_nil] at hnone
        exact hnone

/-- The records behind the first `n` bytes have been drained to their end. -/
def Ended (wire : Bytes) (n : Nat) (delivered : Bytes) : Prop :=
  ∃ raw, drainOutcome (wire.drop n) [] = (.ok (), raw, delivered)

/-- What comes of the reads behind the handshake. -/
def OpenedEnds (env : TicketEnv) (key : Bytes) (clientId : ClientId) (wire : Bytes) (cut : Option Nat)
    (n : Nat) (delivered : Bytes) (r : Received × SsrTlsTicketStream) : Prop :=
  match r.1 with
  | .answer .pending => Opened env key clientId wire cut n delivered r.2
  | .answer (.ready (.ok out)) => Opened env key clientId wire cut n (delivered ++ out) r.2 ∧
      (out = [] → Ended wire n delivered)
  | .answer (.ready (.error _)) => Broken env key clientId wire cut
  | .verified => False

theorem Opened.receive (h : Opened env key clientId wire cut n delivered s) (hempty : s.readBuffer = [])
    {room : Nat} (hroom : 0 < room) :
    OpenedEnds env key clientId wire cut n delivered (s.receiveLoop env room) := by
  fun_induction receiveLoop env s room with
  | case1 s r s' hs =>
    obtain ⟨err,s₁,herr,hbroken⟩ | ⟨out,s₁,hout,hne,hopened⟩ | ⟨s₁,hnone,_⟩ := h.serve hempty hroom
    · cases hs.symm.trans herr
      exact hbroken
    · cases hs.symm.trans hout
      exact ⟨hopened, fun hnil => absurd hnil hne⟩
    · cases hs.symm.trans hnone
  | case2 s s' hs source hr =>
    obtain ⟨err,s₁,herr,_⟩ | ⟨out,s₁,hout,_⟩ | ⟨s₁,hnone,hempty',hopened,_⟩ := h.serve hempty hroom
    · cases hs.symm.trans herr
    · cases hs.symm.trans hout
    · cases hs.symm.trans hnone
      refine ⟨hopened.status, hopened.cut_eq, hopened.verified, (hopened.flawless.read hr).1, ?_⟩
      have hdrains := hopened.drains
      rw [pollRead_pending hr] at hdrains
      exact hdrains
  | case3 s s' hs err source hr =>
    obtain ⟨err',s₁,herr,_⟩ | ⟨out,s₁,hout,_⟩ | ⟨s₁,hnone,hempty',hopened,_⟩ := h.serve hempty hroom
    · cases hs.symm.trans herr
    · cases hs.symm.trans hout
    · cases hs.symm.trans hnone
      exact absurd rfl ((hopened.flawless.read hr).2 err)
  | case4 s s' hs source hr =>
    obtain ⟨err,s₁,herr,_⟩ | ⟨out,s₁,hout,_⟩ | ⟨s₁,hnone,hempty',hopened,hsettled⟩ := h.serve hempty hroom
    · cases hs.symm.trans herr
    · cases hs.symm.trans hout
    · cases hs.symm.trans hnone
      obtain ⟨hsame,hend⟩ := (pollRead_ok hr).2.2.2 rfl
      have hsource : s'.source = [] := hend.resolve_right (by decide)
      have hdrains := hopened.drains
      rw [hsource, hempty', sourceBytes_nil, List.append_nil, drainOutcome_output, hsettled] at hdrains
      subst hsame
      refine ⟨?_, fun _ => ⟨s'.readRaw, ?_⟩⟩
      · rw [List.append_nil]
        exact hopened
      · rw [← hdrains, List.append_nil]
  | case5 s s' hs filled source hr hp ih =>
    obtain ⟨err,s₁,herr,_⟩ | ⟨out,s₁,hout,_⟩ | ⟨s₁,hnone,hempty',hopened,_⟩ := h.serve hempty hroom
    · cases hs.symm.trans herr
    · cases hs.symm.trans hout
    · cases hs.symm.trans hnone
      refine ih ⟨hopened.status, hopened.cut_eq, hopened.verified, (hopened.flawless.read hr).1, ?_⟩ hempty'
      have hdrains := hopened.drains
      rw [(pollRead_ok hr).1, ← List.append_assoc] at hdrains
      exact hdrains

/-! ## One read -/

/-- Either the handshake is awaited and nothing has been delivered, or the stream is open. -/
def Standing (env : TicketEnv) (key : Bytes) (clientId : ClientId) (wire : Bytes) (cut : Option Nat)
    (delivered : Bytes) (s : SsrTlsTicketStream) : Prop :=
  (Waiting key clientId wire cut s ∧ s.readRaw.length < 76 ∧ delivered = []) ∨
    ∃ n, Opened env key clientId wire cut n delivered s

/-- At the end of the inner stream. -/
def AtEnd (env : TicketEnv) (key : Bytes) (clientId : ClientId) (wire : Bytes) (cut : Option Nat)
    (delivered : Bytes) (s : SsrTlsTicketStream) : Prop :=
  cut = none ∨ ∃ n, Opened env key clientId wire cut n delivered s ∧ Ended wire n delivered

def Answers (env : TicketEnv) (key : Bytes) (clientId : ClientId) (wire : Bytes) (cut : Option Nat)
    (delivered : Bytes) (r : Poll (IoResult Bytes) × SsrTlsTicketStream) : Prop :=
  r.2.sink.Willing ∧
    match r.1 with
    | .pending => Standing env key clientId wire cut delivered r.2
    | .ready (.ok out) => Standing env key clientId wire cut (delivered ++ out) r.2 ∧
        (out = [] → AtEnd env key clientId wire cut delivered r.2)
    | .ready (.error _) => Refused env key clientId wire cut ∨ Broken env key clientId wire cut

theorem Opened.write (h : Opened env key clientId wire cut n delivered s) (pending : Option PendingWrite)
    (sink : Sink UInt8) :
    Opened env key clientId wire cut n delivered { s with pendingWrite := pending, sink := sink } :=
  ⟨h.status, h.cut_eq, h.verified, h.flawless, h.drains⟩

/-- A write half that does not fail finishes the pending write or goes on with it. -/
theorem writePending_willing (hw : s.sink.Willing) :
    (∃ p sink, s.writePending = (some .pending, { s with pendingWrite := some p, sink := sink }) ∧
      sink.Willing) ∨
    (∃ r sink, s.writePending = (r, { s with pendingWrite := none, sink := sink }) ∧
      (r = none ∨ ∃ n, r = some (.ready (.ok n))) ∧ sink.Willing ∧
      (s.pendingWrite = none → sink = s.sink)) := by
  rw [writePending]
  cases hp : s.pendingWrite with
  | none =>
    have hs : { s with pendingWrite := none, sink := s.sink } = s := by rw [← hp]
    exact .inr ⟨none, s.sink, by rw [hs], .inl rfl, hw, fun _ => rfl⟩
  | some p =>
    dsimp only
    obtain ⟨sink,hr,_,hsink,_⟩ | ⟨p',sink,hr,_,_,hsink,_⟩ := resume_willing p hw
    · rw [hr]
      exact .inr ⟨_, sink, rfl, .inr ⟨_, rfl⟩, hsink, fun hnone => by cases hnone⟩
    · rw [hr]
      exact .inl ⟨p', sink, rfl, hsink⟩

theorem Opened.readRest (h : Opened env key clientId wire cut n delivered s) (hw : s.sink.Willing)
    {room : Nat} (hroom : 0 < room) :
    Answers env key clientId wire cut delivered (s.readRest env room) := by
  rw [SsrTlsTicketStream.readRest]
  split
  case h_1 out rest hdrain =>
    obtain ⟨hsplit,hne⟩ := drainBuffer_some hdrain
    refine ⟨hw, .inr ⟨n, h.status, h.cut_eq, h.verified, h.flawless, ?_⟩, fun hnil => absurd hnil hne⟩
    rw [List.append_assoc, hsplit]
    exact h.drains
  case h_2 hdrain =>
    have hempty := (drainBuffer_none hdrain).resolve_right (Nat.ne_of_gt hroom)
    have hends := h.receive hempty hroom
    have hkeeps := (receiveLoop_keeps env s room).1
    cases hloop : s.receiveLoop env room with
    | mk r s' =>
      rw [hloop] at hends hkeeps
      have hsink : s'.sink.Willing := by
        obtain ⟨_,_,_,rfl⟩ := hkeeps
        exact hw
      cases r with
      | verified => exact hends.elim
      | answer r =>
        cases r with
        | pending => exact ⟨hsink, .inr ⟨n, hends⟩⟩
        | ready r =>
          cases r with
          | error err => exact ⟨hsink, .inr hends⟩
          | ok out => exact ⟨hsink, .inr ⟨n, hends.1⟩, fun hnil =>
              .inr ⟨n, by simpa [hnil] using hends.1, hends.2 hnil⟩⟩

theorem Waiting.readRest (h : Waiting key clientId wire cut s) (hw : s.sink.Willing) (room : Nat) :
    Answers env key clientId wire cut [] (s.readRest env room) := by
  rw [SsrTlsTicketStream.readRest]
  split
  case h_1 out rest hdrain =>
    rw [h.empty] at hdrain
    obtain ⟨hsplit,hne⟩ := drainBuffer_some hdrain
    exact absurd (List.append_eq_nil_iff.mp hsplit).1 hne
  case h_2 =>
    have hends : WaitingEnds env _ _ _ _ _ := h.receive room
    have hkeeps := (receiveLoop_keeps env s room).1
    cases hloop : s.receiveLoop env room with
    | mk r s' =>
      rw [hloop] at hends hkeeps
      have hsink : s'.sink.Willing := by
        obtain ⟨_,_,_,rfl⟩ := hkeeps
        exact hw
      cases r with
      | answer r =>
        cases r with
        | pending => exact ⟨hsink, .inl ⟨hends.1, hends.2, rfl⟩⟩
        | ready r =>
          cases r with
          | error err => exact ⟨hsink, .inl hends⟩
          | ok out =>
            obtain ⟨rfl,hcut,hwaiting,hshort⟩ := hends
            exact ⟨hsink, .inl ⟨hwaiting, hshort, rfl⟩, fun _ => .inl hcut⟩
      | verified =>
        obtain ⟨n,hcut,hverify,hraw,hbuffer,hbytes,hflawless⟩ := hends
        have hopened : Opened env key clientId wire cut n [] (s'.queueFinish env) := by
          refine ⟨rfl, hcut, hverify, hflawless, ?_⟩
          change drainOutcome (s'.readRaw ++ sourceBytes s'.source) ([] ++ s'.readBuffer) = _
          rw [hraw, hbuffer, hbytes]
          rfl
        obtain ⟨p,sink,hwrite,hwilling⟩ | ⟨r,sink,hwrite,hr,hwilling,_⟩ :=
          writePending_willing (s := s'.queueFinish env) hsink
        · dsimp only
          rw [hwrite]
          exact ⟨hwilling, .inr ⟨n, hopened.write (some p) sink⟩⟩
        · obtain rfl | ⟨m,rfl⟩ := hr
          · dsimp only
            rw [hwrite]
            exact ⟨hwilling, .inr ⟨n, hopened.write none sink⟩⟩
          · dsimp only
            rw [hwrite]
            exact ⟨hwilling, .inr ⟨n, hopened.write none sink⟩⟩

theorem Standing.pollRead (h : Standing env key clientId wire cut delivered s) (hw : s.sink.Willing)
    {room : Nat} (hroom : 0 < room) :
    Answers env key clientId wire cut delivered (s.pollRead env room) := by
  have hrest : ∀ sink : Sink UInt8, sink.Willing → (s.pendingWrite = none → sink = s.sink) →
      Answers env key clientId wire cut delivered
        (readRest env { s with pendingWrite := none, sink := sink } room) := by
    intro sink hwilling hsame
    obtain ⟨hwaiting,_,rfl⟩ | ⟨n,hopened⟩ := h
    · have hs : { s with pendingWrite := none, sink := sink } = s := by
        rw [hsame hwaiting.idle, ← hwaiting.idle]
      rw [hs]
      exact hwaiting.readRest hw room
    · exact (hopened.write none sink).readRest hwilling hroom
  rw [SsrTlsTicketStream.pollRead]
  obtain ⟨p,sink,hwrite,hwilling⟩ | ⟨r,sink,hwrite,hr,hwilling,hsame⟩ := writePending_willing hw
  · rw [hwrite]
    obtain ⟨hwaiting,_⟩ | ⟨n,hopened⟩ := h
    · rw [writePending_none hwaiting.idle] at hwrite
      cases hwrite
    · exact ⟨hwilling, .inr ⟨n, hopened.write (some p) sink⟩⟩
  · obtain rfl | ⟨m,rfl⟩ := hr
    · rw [hwrite]
      exact hrest sink hwilling hsame
    · rw [hwrite]
      exact hrest sink hwilling hsame

/-! ## Every read comes closer to the end -/

theorem drain_length (raw output : Bytes) (drained : Bool) :
    (ssrTlsTicketDrainRecords raw output drained).2.1.length +
      (ssrTlsTicketDrainRecords raw output drained).2.2.length ≤ raw.length + output.length := by
  induction hn : raw.length using Nat.strong_induction_on generalizing raw output drained with
  | _ n ih =>
    obtain ⟨size,hfirst⟩ | hwait | ⟨_,_,hbad⟩ := drain_cases raw output drained
    · have hle := hfirst.2.2
      have hfive : 5 ≤ size := by
        rw [hfirst.2.1]
        exact Nat.le_add_right ..
      have hrest := ih _ (by rw [List.length_drop]; omega) (raw.drop size)
        (output ++ (raw.take size).drop 5) true rfl
      rw [drain_record hfirst]
      simp only [List.length_append, List.length_drop, List.length_take] at hrest
      omega
    · rw [hwait, hn]
    · rw [hbad]
      exact Nat.add_le_add_right (Nat.zero_le _) _

/-- What is still to be handed out, and the reads it may come in. -/
def ahead (s : SsrTlsTicketStream) : Nat :=
  sourceSize s.source + s.readRaw.length + s.readBuffer.length

def Received.spent : Received → Nat
  | .answer .pending => 1
  | .answer (.ready (.ok out)) => out.length
  | _ => 0

theorem serveBuffered_ahead (env : TicketEnv) (s : SsrTlsTicketStream) (room : Nat) :
    (s.serveBuffered env room).2.ahead + ((s.serveBuffered env room).1.map Received.spent).getD 0 ≤
      s.ahead := by
  rw [serveBuffered]
  split
  · have hlength := drain_length s.readRaw s.readBuffer false
    split
    case h_1 err raw output hd =>
      rw [hd] at hlength
      dsimp only at hlength
      simp only [ahead, Option.map_some, Option.getD_some, Received.spent]
      omega
    case h_2 drained raw output hd =>
      rw [hd] at hlength
      dsimp only at hlength
      split
      case h_1 out rest hout =>
        have hdrained : drainBuffer output room = some (out, rest) := by
          cases drained with
          | true => exact hout
          | false => cases hout
        have hsplit := congrArg List.length (drainBuffer_some hdrained).1
        rw [List.length_append] at hsplit
        simp only [ahead, Option.map_some, Option.getD_some, Received.spent]
        omega
      case h_2 =>
        simp only [ahead, Option.map_none, Option.getD_none]
        omega
  · split
    · split
      · exact Nat.le_refl _
      · simp only [ahead, Option.map_some, Option.getD_some, Received.spent, List.length_nil]
        omega
    · exact Nat.le_refl _

theorem receiveLoop_ahead (env : TicketEnv) (s : SsrTlsTicketStream) (room : Nat) :
    (s.receiveLoop env room).2.ahead + (s.receiveLoop env room).1.spent ≤ s.ahead := by
  fun_induction receiveLoop env s room with
  | case1 s r s' hs =>
    have hserve := serveBuffered_ahead env s room
    rw [hs] at hserve
    exact hserve
  | case2 s s' hs source hr =>
    have hserve := serveBuffered_ahead env s room
    rw [hs] at hserve
    have hpending : sourceSize source < sourceSize s'.source := by
      rw [pollRead_pending hr]
      exact sourceSize_pending
    simp only [ahead, Option.map_none, Option.getD_none, Received.spent] at hserve ⊢
    omega
  | case3 s s' hs err source hr =>
    have hserve := serveBuffered_ahead env s room
    rw [hs] at hserve
    have herror : sourceSize source ≤ sourceSize s'.source := by
      rw [pollRead_error hr, sourceSize, sourceSize, sourceBytes_fail, List.length_cons]
      omega
    simp only [ahead, Option.map_none, Option.getD_none, Received.spent] at hserve ⊢
    omega
  | case4 s s' hs source hr =>
    have hserve := serveBuffered_ahead env s room
    rw [hs] at hserve
    obtain ⟨rfl,_⟩ := (pollRead_ok hr).2.2.2 rfl
    exact hserve
  | case5 s s' hs filled source hr hp ih =>
    have hserve := serveBuffered_ahead env s room
    rw [hs] at hserve
    have hread : sourceSize source + filled.length ≤ sourceSize s'.source := by
      obtain ⟨hbytes,_,hlength,_⟩ := pollRead_ok hr
      rw [sourceSize, sourceSize, hbytes, List.length_append]
      omega
    simp only [ahead, List.length_append, Option.map_none, Option.getD_none] at hserve ih ⊢
    omega

/-- A handshake that is still to come counts as one. -/
def size (s : SsrTlsTicketStream) : Nat := s.ahead + if s.handshakeStatus = 8 then 0 else 1

/-- Nothing is pending, and the finish packet will go out at once. -/
structure Quick (env : TicketEnv) (s : SsrTlsTicketStream) : Prop where
  idle : s.pendingWrite = none
  burst : s.handshakeStatus ≠ 8 →
    (ssrTlsTicketFinish env s.key s.clientId s.sendBuffer).length ≤ s.sink.burst

theorem queueFinish_goes
    (h : (ssrTlsTicketFinish env s.key s.clientId s.sendBuffer).length ≤ s.sink.burst) :
    ∃ sink, (s.queueFinish env).writePending =
      (some (.ready (.ok 0)), { s.queueFinish env with pendingWrite := none, sink := sink }) := by
  rw [writePending]
  obtain ⟨sink,hr,_⟩ | ⟨p',sink,_,_,_,hlt⟩ | ⟨err,sink,lost,_,_,hlt⟩ :=
    resume_cases (.new (ssrTlsTicketFinish env s.key s.clientId s.sendBuffer) 0) s.sink
  · refine ⟨sink, ?_⟩
    dsimp only [queueFinish]
    rw [hr]
    rfl
  · exact absurd h (Nat.not_le.mpr hlt)
  · exact absurd h (Nat.not_le.mpr hlt)

theorem Quick.pollRead (h : Quick env s) (room : Nat) :
    (∃ err, (s.pollRead env room).1 = .ready (.error err)) ∨
    (s.pollRead env room).1 = .ready (.ok []) ∨
    Quick env (s.pollRead env room).2 ∧ (s.pollRead env room).2.size < s.size := by
  rw [SsrTlsTicketStream.pollRead, writePending_none h.idle]
  dsimp only
  rw [SsrTlsTicketStream.readRest]
  cases hdrain : drainBuffer s.readBuffer room with
  | some r =>
    obtain ⟨out,rest⟩ := r
    obtain ⟨hsplit,hne⟩ := drainBuffer_some hdrain
    have hlength := congrArg List.length hsplit
    have hpos := List.length_pos_iff.mpr hne
    rw [List.length_append] at hlength
    refine .inr (.inr ⟨⟨h.idle, h.burst⟩, ?_⟩)
    simp only [size, ahead]
    omega
  | none =>
    have hahead := receiveLoop_ahead env s room
    obtain ⟨hkeeps,hverified⟩ := receiveLoop_keeps env s room
    cases hloop : s.receiveLoop env room with
    | mk r s' =>
      rw [hloop] at hahead hkeeps hverified
      dsimp only at hahead
      obtain ⟨source,raw,buffer,rfl⟩ := hkeeps
      cases r with
      | answer r =>
        have hlt : 0 < (Received.answer r).spent →
            size { s with source := source, readRaw := raw, readBuffer := buffer } < s.size := by
          intro hpos
          simp only [size]
          omega
        cases r with
        | pending => exact .inr (.inr ⟨⟨h.idle, h.burst⟩, hlt Nat.one_pos⟩)
        | ready r =>
          cases r with
          | error err => exact .inl ⟨err, rfl⟩
          | ok out =>
            cases out with
            | nil => exact .inr (.inl rfl)
            | cons b bs => exact .inr (.inr ⟨⟨h.idle, h.burst⟩, hlt (Nat.succ_pos _)⟩)
      | verified =>
        have h8 : s.handshakeStatus ≠ 8 := hverified rfl
        have hburst := h.burst h8
        obtain ⟨sink,hwrite⟩ := queueFinish_goes
          (s := { s with source := source, readRaw := raw, readBuffer := buffer }) hburst
        dsimp only
        rw [hwrite]
        refine .inr (.inr ⟨⟨rfl, fun hne => absurd rfl hne⟩, ?_⟩)
        have hsize : sourceSize source + raw.length + buffer.length ≤ s.ahead := hahead
        change sourceSize source + raw.length + buffer.length + 0 < s.ahead + _
        rw [if_neg h8]
        omega

/-! ## Sessions of a reader -/

/-- No byte has been read and no write is pending; the hello may have been sent. -/
structure Awaits (s : SsrTlsTicketStream) : Prop where
  status : s.handshakeStatus ≠ 8
  idle : s.pendingWrite = none
  unread : s.readRaw = [] ∧ s.readBuffer = []

/-- What holds in every session. -/
def ReadExact (env : TicketEnv) (key : Bytes) (clientId : ClientId) (wire : Bytes) (cut : Option Nat)
    (r : ReadSession SsrTlsTicketStream UInt8) : Prop :=
  r.stream.sink.Willing ∧
    if r.failed then Refused env key clientId wire cut ∨ Broken env key clientId wire cut
    else Standing env key clientId wire cut r.delivered r.stream ∧
      (r.last = some (.ready (.ok [])) → AtEnd env key clientId wire cut r.delivered r.stream)

theorem Awaits.waiting (h : s.Awaits) (hf : Flawless s.source) (sink : Sink UInt8) :
    Waiting s.key s.clientId (sourceBytes s.source) (firstCut 8192 76 0 s.source) { s with sink := sink } := by
  obtain ⟨hraw,hbuffer⟩ := h.unread
  refine ⟨h.status, ⟨rfl, rfl⟩, h.idle, hbuffer, hf, ?_, ?_⟩
  · dsimp only
    rw [hraw, List.nil_append]
  · dsimp only
    rw [hraw, List.length_nil, if_pos (by decide)]

theorem Awaits.readExact (h : s.Awaits) (hf : Flawless s.source) {sink : Sink UInt8} (hw : sink.Willing)
    {r : ReadSession SsrTlsTicketStream UInt8} (hr : Reads (pollRead env) { s with sink := sink } r) :
    ReadExact env s.key s.clientId (sourceBytes s.source) (firstCut 8192 76 0 s.source) r := by
  refine hr.invariant (ReadExact env s.key s.clientId (sourceBytes s.source) (firstCut 8192 76 0 s.source)) ?_ ?_
  · refine ⟨hw, .inl ⟨h.waiting hf sink, ?_, rfl⟩, fun hlast => by cases hlast⟩
    change s.readRaw.length < 76
    rw [h.unread.1]
    decide
  · intro r room hexact ho hroom
    obtain ⟨hwilling,hstanding⟩ := hexact
    rw [if_neg (by rw [ho]; decide)] at hstanding
    obtain ⟨hsink,hanswer⟩ := hstanding.1.pollRead hwilling hroom
    rw [ReadSession.read]
    generalize pollRead env r.stream room = answer at hsink hanswer
    obtain ⟨result,st⟩ := answer
    refine ⟨?_, ?_⟩
    · cases result with
      | pending => exact hsink
      | ready result => cases result <;> exact hsink
    · cases result with
      | pending => exact ⟨hanswer, fun hlast => by cases hlast⟩
      | ready result =>
        cases result with
        | error err => exact hanswer
        | ok out =>
          refine ⟨hanswer.1, fun hlast => ?_⟩
          cases hlast
          have hend := hanswer.2 rfl
          change AtEnd _ _ _ _ _ (r.delivered ++ []) st
          rw [List.append_nil]
          exact hend

/-- A sink that takes the finish packet at once lets a reader get to the end of the stream
or to an error. -/
theorem Awaits.ends (h : s.Awaits) {sink : Sink UInt8}
    (hburst : (ssrTlsTicketFinish env s.key s.clientId s.sendBuffer).length ≤ sink.burst) :
    ∃ r, Reads (pollRead env) { s with sink := sink } r ∧
      (r.last = some (.ready (.ok [])) ∨ r.failed = true) :=
  Reads.ends (Quick env) size Nat.one_pos (fun _ hq => hq.pollRead 1) ⟨h.idle, fun _ => hburst⟩

/-! ## Where the reply must end -/

/-- Whatever the write half does, no reader gets an error or anything but `payload`, and a
reader at the end of the stream has it all; a reader gets there if the finish packet goes out. -/
def Delivers (env : TicketEnv) (s : SsrTlsTicketStream) (payload : Bytes) : Prop :=
  ∀ sink : Sink UInt8, sink.Willing →
    (∀ r, Reads (pollRead env) { s with sink := sink } r → r.failed = false ∧ r.delivered <+: payload ∧
      (r.last = some (.ready (.ok [])) → r.stream.handshakeStatus = 8 ∧ r.delivered = payload)) ∧
    ((ssrTlsTicketFinish env s.key s.clientId s.sendBuffer).length ≤ sink.burst →
      ∃ r, Reads (pollRead env) { s with sink := sink } r ∧ r.last = some (.ready (.ok [])))

/-- What has been read when there is enough for a handshake for the first time verifies as
one, and what follows carries `payload`. -/
def FillsRead (env : TicketEnv) (s : SsrTlsTicketStream) (payload : Bytes) : Prop :=
  ∃ n, firstCut 8192 76 0 s.source = some n ∧
    ssrTlsTicketVerifyServerHandshake env ((sourceBytes s.source).take n) s.key s.clientId = .ok () ∧
    Carries ((sourceBytes s.source).drop n) payload

theorem Carries.unique {bytes payload payload' : Bytes} (h : Carries bytes payload)
    (h' : Carries bytes payload') : payload = payload' := by
  obtain ⟨tail,hd⟩ := (drainOutcome_ok_iff _ _).mpr h
  obtain ⟨tail',hd'⟩ := (drainOutcome_ok_iff _ _).mpr h'
  cases hd.symm.trans hd'
  rfl

theorem FillsRead.delivers {payload : Bytes} (ha : s.Awaits) (hf : Flawless s.source)
    (h : s.FillsRead env payload) : s.Delivers env payload := by
  obtain ⟨n,hcut,hverify,hcarries⟩ := h
  obtain ⟨tail,hdrain⟩ := (drainOutcome_ok_iff _ _).mpr hcarries
  have hgood : ¬ (Refused env s.key s.clientId (sourceBytes s.source) (firstCut 8192 76 0 s.source) ∨
      Broken env s.key s.clientId (sourceBytes s.source) (firstCut 8192 76 0 s.source)) := by
    rintro (⟨m,err,hcut',hbad⟩ | ⟨m,err,hcut',_,hbad⟩)
    · cases hcut.symm.trans hcut'
      cases hverify.symm.trans hbad
    · cases hcut.symm.trans hcut'
      rw [hdrain] at hbad
      cases hbad
  intro sink hw
  have hsafe : ∀ r, Reads (SsrTlsTicketStream.pollRead env) { s with sink := sink } r →
      r.failed = false ∧ r.delivered <+: payload ∧
        (r.last = some (.ready (.ok [])) → r.stream.handshakeStatus = 8 ∧ r.delivered = payload) := by
    intro r hr
    obtain ⟨_,hexact⟩ := ha.readExact hf hw hr
    split at hexact
    case isTrue => exact absurd hexact hgood
    case isFalse hfailed =>
      obtain ⟨hstanding,hend⟩ := hexact
      refine ⟨eq_false_of_ne_true hfailed, ?_, fun hlast => ?_⟩
      · obtain ⟨_,_,hnil⟩ | ⟨m,hopened⟩ := hstanding
        · rw [hnil]
          exact List.nil_prefix
        · cases hcut.symm.trans hopened.cut_eq
          have hdrains := hopened.drains
          rw [hdrain, drainOutcome_output] at hdrains
          rw [← (Prod.mk.inj (Prod.mk.inj hdrains).2).2]
          exact List.prefix_append ..
      · obtain hnone | ⟨m,hopened,tail',hended⟩ := hend hlast
        · cases hcut.symm.trans hnone
        · cases hcut.symm.trans hopened.cut_eq
          cases hdrain.symm.trans hended
          exact ⟨hopened.status, rfl⟩
  refine ⟨hsafe, fun hburst => ?_⟩
  obtain ⟨r,hr,hlast | hfailed⟩ := ha.ends hburst
  · exact ⟨r, hr, hlast⟩
  · cases (hsafe r hr).1.symm.trans hfailed

theorem Delivers.fillsRead {payload : Bytes} (ha : s.Awaits) (hf : Flawless s.source)
    (h : s.Delivers env payload) : s.FillsRead env payload := by
  let sink : Sink UInt8 :=
    ⟨[.accept ((ssrTlsTicketFinish env s.key s.clientId s.sendBuffer).length + 1)], []⟩
  have hw : sink.Willing := by
    intro a hmem
    rw [List.mem_singleton.mp hmem]
    exact .inr ⟨_, rfl⟩
  have hburst : (ssrTlsTicketFinish env s.key s.clientId s.sendBuffer).length ≤ sink.burst :=
    Nat.le_succ _
  obtain ⟨hsafe,hends⟩ := h sink hw
  obtain ⟨r,hr,hlast⟩ := hends hburst
  obtain ⟨hfailed,_,hall⟩ := hsafe r hr
  obtain ⟨h8,hpayload⟩ := hall hlast
  obtain ⟨_,hexact⟩ := ha.readExact hf hw hr
  rw [if_neg (by rw [hfailed]; decide)] at hexact
  obtain ⟨hstanding,hend⟩ := hexact
  obtain ⟨hwaiting,_⟩ | ⟨n,hopened⟩ := hstanding
  · exact absurd h8 hwaiting.status
  · obtain hnone | ⟨m,hopened',hended⟩ := hend hlast
    · cases hopened.cut_eq.symm.trans hnone
    · refine ⟨m, hopened'.cut_eq, hopened'.verified, ?_⟩
      rw [← hpayload]
      exact (drainOutcome_ok_iff _ _).mp hended

/-- The stream delivers the records exactly if what has been read when there are 76 bytes
verifies and leaves the same payload; where nothing but the reply verifies, that is a read
which ends with the reply. -/
theorem ssr_tls_ticket_handshake_delivers_iff (env : TicketEnv) (s : SsrTlsTicketStream)
    (reply records payload : Bytes) (ha : s.Awaits) (hf : Flawless s.source)
    (hverify : ssrTlsTicketVerifyServerHandshake env reply s.key s.clientId = .ok ())
    (hrecords : AppRecords records payload) (hwire : sourceBytes s.source = reply ++ records) :
    (s.Delivers env payload ↔ s.FillsRead env payload) ∧
    ((∀ n, 76 ≤ n → n ≤ (reply ++ records).length →
        ssrTlsTicketVerifyServerHandshake env ((reply ++ records).take n) s.key s.clientId = .ok () →
        n = reply.length) →
      (s.Delivers env payload ↔ firstCut 8192 76 0 s.source = some reply.length)) := by
  have hiff : s.Delivers env payload ↔ s.FillsRead env payload :=
    ⟨fun h => h.fillsRead ha hf, fun h => h.delivers ha hf⟩
  refine ⟨hiff, fun honly => hiff.trans ⟨?_, fun hcut => ⟨reply.length, hcut, ?_, ?_⟩⟩⟩
  · rintro ⟨n,hcut,hfirst,_⟩
    obtain ⟨hlow,hhigh⟩ := firstCut_bounds 8192 76 0 s.source n hcut
    rw [Nat.zero_add, hwire] at hhigh
    rw [hwire] at hfirst
    rw [hcut, honly n hlow hhigh hfirst]
  · rw [hwire, List.take_left, hverify]
  · rw [hwire, List.drop_left]
    exact ⟨records, [], (List.append_nil _).symm, hrecords, .inl (by decide)⟩

/-- The hello has been sent. -/
def sampleAwaiting (source : Source UInt8) : SsrTlsTicketStream :=
  { new source ⟨[], []⟩ "cdn.example" [7] (Vector.replicate 32 0) with handshakeStatus := 1 }

theorem sampleAwaiting_awaits (source : Source UInt8) : (sampleAwaiting source).Awaits :=
  ⟨fun h : (1 : UInt8) = 8 => absurd h (by decide), rfl, rfl, rfl⟩

/-- The reply comes in two reads, and the record in a read of its own. -/
theorem ssr_tls_ticket_handshake_delivers_record :
    (sampleAwaiting [.segment 0 (List.replicate 40 0), .pending, .segment 0 (List.replicate 34 0),
      .segment 0x17 [0x03, 0x03, 0, 1, 5]]).Delivers sampleEnv [5] := by
  refine ((ssr_tls_ticket_handshake_delivers_iff sampleEnv _ (List.replicate 76 0)
    (ssrTlsTicketPackRecord [5]) [5] (sampleAwaiting_awaits _) ?_ ?_ (.single (by decide)) ?_).2 ?_).mpr ?_
  · simp [Flawless, sampleAwaiting, new]
  · decide +kernel
  · decide +kernel
  · have honly : ∀ n < 83, 76 ≤ n → ssrTlsTicketVerifyServerHandshake sampleEnv
        ((List.replicate 76 0 ++ ssrTlsTicketPackRecord [5]).take n) [7] (Vector.replicate 32 0) =
          .ok () → n = 76 := by decide +kernel
    exact fun n hlow hhigh hv => honly n (Nat.lt_succ_of_le hhigh) hlow hv
  · decide +kernel

/-- The same reply and the same record in one read. -/
theorem ssr_tls_ticket_coalesced_refused :
    ¬ ∀ (env : TicketEnv) (s : SsrTlsTicketStream) (reply records payload : Bytes),
      s.Awaits → Flawless s.source → 76 ≤ reply.length →
      ssrTlsTicketVerifyServerHandshake env reply s.key s.clientId = .ok () →
      AppRecords records payload → sourceBytes s.source = reply ++ records →
      s.Delivers env payload := by
  intro h
  let s := sampleAwaiting [.segment 0 (List.replicate 75 0 ++ ssrTlsTicketPackRecord [5])]
  have hf : Flawless s.source := by simp [Flawless, s, sampleAwaiting, new]
  have hdelivers := h sampleEnv s (List.replicate 76 0) (ssrTlsTicketPackRecord [5]) [5]
    (sampleAwaiting_awaits _) hf (by decide) (by decide +kernel) (.single (by decide)) (by decide +kernel)
  obtain ⟨n,hcut,hverify,_⟩ := hdelivers.fillsRead (sampleAwaiting_awaits _) hf
  have hcut' : firstCut 8192 76 0 s.source = some 82 := by decide +kernel
  cases hcut.symm.trans hcut'
  have hbad : ssrTlsTicketVerifyServerHandshake sampleEnv ((sourceBytes s.source).take 82) s.key
      s.clientId ≠ .ok () := by decide +kernel
  exact hbad hverify

end SsrTlsTicketStream
end AtlasKernel.Shadowsocks
