import AtlasKernel.Vless.VisionPadding

/-! Direct mode of the Vision flow. Each side announces it with command 2 in the block
that ends its padding, and goes on beneath the outer TLS session. The three paths that
apply the flow: `bridge_vision_stream`, which splits the raw stream off,
`bridge_vless_stream`, and the mux. A read or a write that fails ends its task, so a
run is given by the chunks up to there. Source: `adapter/vless.rs`. -/
namespace AtlasKernel.Vless
open AtlasKernel.Lib

/-- Whether bytes take the outer TLS session or the stream beneath it. -/
inductive Route where
  | outerTls | raw
deriving DecidableEq, Repr

structure Write where
  route : Route
  write : UplinkWrite
deriving DecidableEq, Repr

/-- A read, what the local side gets for it, and whether the unpadding reports direct
mode with it (which not every caller looks at). -/
structure Read where
  route : Route
  data : Bytes
  delivered : List Bytes
  direct : Bool
deriving DecidableEq, Repr

structure Traffic where
  writes : List Write
  reads : List Read
deriving DecidableEq, Repr

def Traffic.append (t u : Traffic) : Traffic := ⟨t.writes ++ u.writes, t.reads ++ u.reads⟩

def UplinkWrite.direct : UplinkWrite → Bool
  | .block _ command _ => command = 2
  | .plain _ => false

/-- What direct mode asks of a path; `bypass` says whether it can go beneath the outer
TLS session at all. -/
structure Agreement (bypass : Bool) (t : Traffic) : Prop where
  writes_raw : t.writes.Pairwise fun a b => a.write.direct → b.route = .raw
  reads_raw : t.reads.Pairwise fun a b => a.direct → b.route = .raw
  no_direct : bypass = false → ∀ w ∈ t.writes, w.write.direct = false

/-! ## The plain bridge -/

/-- The start of the downlink: a response header with its addon, or two bytes that are
no header and are passed on. -/
inductive ResponseHead where
  | header (addon : { addon : Bytes // addon.length ≤ 255 })
  | data (first second : UInt8) (h : first ≠ 0)

/-- The state after a chunk, and what is written to the local side. What the push says
of direct mode is dropped. -/
def writeDownlink (state : VisionUnpaddingState) (data : Bytes) :
    VisionUnpaddingState × List Bytes :=
  let result := state.push data
  (result.1, result.2.chunks.map VisionChunk.asRef)

/-- A read loop that unpads and stays on the outer TLS session. -/
def downlinkReads (state : VisionUnpaddingState) : List Bytes → List Read
  | [] => []
  | data :: more =>
    let r := writeDownlink state data
    ⟨.outerTls, data, r.2, (state.push data).2.direct⟩ :: downlinkReads r.1 more

/-- What is unpadded, read by read. -/
def ResponseHead.unpadded : ResponseHead → List Bytes → List Bytes
  | .header _, reads => reads
  | .data first second _, reads => [first, second] :: reads

def ResponseHead.reads : ResponseHead → List Read
  | .header addon => [⟨.outerTls, [0, UInt8.ofNat addon.1.length] ++ addon.1, [], false⟩]
  | .data .. => []

/-- The two tasks of `bridge_vless_stream` share nothing, so their writes and reads
stand side by side. -/
def bridgeVlessTraffic (uuid : Uuid) (request : Bytes) (firstPayload : Option FirstPayload)
    (locals : List LocalRead) (head : ResponseHead) (remotes : List LocalRead) : Traffic :=
  ⟨(.plain request :: bridgeVlessStream uuid (firstPayload.map (·.1)) (locals.map (·.1))).map
      (⟨.outerTls, ·⟩),
    head.reads ++ downlinkReads (.new uuid) (head.unpadded (remotes.map (·.1)))⟩

/-! ## The mux -/

abbrev MuxRead := { data : Bytes // 0 < data.length ∧ data.length ≤ smallFlowCopyBufferSize }

/-- The writer and the reader of a mux: the reader wants a response header, and like
`write_downlink` it drops what the push says of direct mode. -/
def muxTraffic (uuid : Uuid) (packets : List (TargetAddress × Bytes))
    (addon : { addon : Bytes // addon.length ≤ 255 }) (remotes : List MuxRead) : Traffic :=
  ⟨(muxFrames (.new (some uuid)) packets).map (⟨.outerTls, ·⟩),
    (ResponseHead.header addon).reads ++ downlinkReads (.new uuid) (remotes.map (·.1))⟩

/-! ## The bridge that splits the raw stream off -/

structure VlessResponseHeaderStripper where
  pending : Bytes
  done : Bool
deriving DecidableEq, Repr

def VlessResponseHeaderStripper.push (s : VlessResponseHeaderStripper) (data : Bytes) :
    Option Bytes × VlessResponseHeaderStripper :=
  if s.done then (some data, s)
  else
    let pending := s.pending ++ data
    if pending.length < 2 then (none, { s with pending := pending })
    else if pending.getD 0 0 ≠ 0 then (some pending, ⟨[], true⟩)
    else
      let headerLen := 2 + (pending.getD 1 0).toNat
      if pending.length < headerLen then (none, { s with pending := pending })
      else (some (pending.drop headerLen), ⟨[], true⟩)

/-- `Tls(None)` exists only inside `ensure_manual`. -/
inductive VisionRemote where
  | tls
  | manual (downlinkRaw uplinkRaw : Bool)
deriving DecidableEq, Repr

namespace VisionRemote

def readRoute : VisionRemote → Route
  | .tls => .outerTls
  | .manual downlinkRaw _ => if downlinkRaw then .raw else .outerTls

def writeRoute : VisionRemote → Route
  | .tls => .outerTls
  | .manual _ uplinkRaw => if uplinkRaw then .raw else .outerTls

def ensureManual : VisionRemote → VisionRemote
  | .tls => .manual false false
  | r => r

def switchDownlinkToRaw (r : VisionRemote) : VisionRemote :=
  match r.ensureManual with
  | .tls => .tls
  | .manual _ uplinkRaw => .manual true uplinkRaw

def switchUplinkToRaw (r : VisionRemote) : VisionRemote :=
  match r.ensureManual with
  | .tls => .tls
  | .manual downlinkRaw _ => .manual downlinkRaw true

/-- What the TLS session has taken from the socket behind the bytes of a read. Under
`RecordLimitedTcp` it gets one record at a time and holds nothing; after
`ensure_manual` it is fed whatever the socket has. -/
def held : VisionRemote → Bytes → Bytes
  | .tls, _ => []
  | .manual _ _, ahead => ahead

end VisionRemote

structure VisionBridge where
  remote : VisionRemote
  responseHeader : VlessResponseHeaderStripper
  downlink : VisionUnpaddingState
  downlinkRaw : Bool
  downlinkDirectConfirmed : Bool
  uplink : VisionUplinkState
deriving DecidableEq, Repr

/-- A branch of the `select!`; `ahead` is what the socket had behind a read. -/
inductive BridgeEvent where
  | remoteRead (read : LocalRead) (ahead : Bytes)
  | localRead (read : LocalRead)

namespace VisionBridge

def start (uuid : Uuid) : VisionBridge := ⟨.tls, ⟨[], false⟩, .new uuid, false, false, .new⟩

/-- The bytes left behind in a TLS session that is no longer read. -/
def stranded (b : VisionBridge) (ahead : Bytes) : List Read :=
  if b.remote.held ahead = [] then [] else [⟨.outerTls, b.remote.held ahead, [], false⟩]

def remoteStep (b : VisionBridge) (data ahead : Bytes) : VisionBridge × List Read :=
  let route := b.remote.readRoute
  if b.downlinkRaw then (b, [⟨route, data, [data], false⟩])
  else
    match b.responseHeader.push data with
    | (none, header) => ({ b with responseHeader := header }, [⟨route, data, [], false⟩])
    | (some payload, header) =>
      if payload = [] then ({ b with responseHeader := header }, [⟨route, data, [], false⟩])
      else
        let result := b.downlink.push payload
        let read := ⟨route, data, result.2.chunks.map VisionChunk.asRef, result.2.direct⟩
        if result.2.direct then
          ({ b with
              responseHeader := header
              downlink := result.1
              remote := b.remote.switchDownlinkToRaw
              downlinkRaw := true
              downlinkDirectConfirmed := true }, read :: b.stranded ahead)
        else ({ b with responseHeader := header, downlink := result.1 }, [read])

def localStep (b : VisionBridge) (data : Bytes) : VisionBridge × Write :=
  let route := b.remote.writeRoute
  if b.uplink.padding then
    let r := b.uplink.commandFor data b.downlinkDirectConfirmed
    ({ b with
        uplink := r.2
        remote := if r.1.direct then b.remote.switchUplinkToRaw else b.remote },
      ⟨route, .block (some data) r.1.command none⟩)
  else (b, ⟨route, .plain data⟩)

def step (b : VisionBridge) : BridgeEvent → VisionBridge × Traffic
  | .remoteRead read ahead =>
    let r := b.remoteStep read.1 ahead
    (r.1, ⟨[], r.2⟩)
  | .localRead read =>
    let r := b.localStep read.1
    (r.1, ⟨[r.2], []⟩)

def run (b : VisionBridge) : List BridgeEvent → VisionBridge × Traffic
  | [] => (b, ⟨[], []⟩)
  | event :: events =>
    let r := b.step event
    let r' := r.1.run events
    (r'.1, r.2.append r'.2)

end VisionBridge

def bridgeVisionTraffic (uuid : Uuid) (request : Bytes) (firstPayload : Option FirstPayload)
    (events : List BridgeEvent) : Traffic :=
  Traffic.append
    ⟨[⟨.outerTls, .plain request⟩,
      ⟨.outerTls, .block (firstPayload.map (·.1)) 0 (some uuid)⟩], []⟩
    ((VisionBridge.start uuid).run events).2

/-! ## What asks for direct mode -/

/-- Complete blocks with command 0 and behind them one with command 2. -/
inductive EndsDirect : Bytes → Prop
  | last {buf : Bytes} : 5 ≤ buf.length → blockLen buf ≤ buf.length → buf.getD 0 0 = 2 →
      EndsDirect buf
  | more {buf : Bytes} : 5 ≤ buf.length → blockLen buf ≤ buf.length → buf.getD 0 0 = 0 →
      EndsDirect (buf.drop (blockLen buf)) → EndsDirect buf

/-- In a mode of the unpadding, the bytes end the padding with command 2. -/
def AnnouncesDirect (uuid : Uuid) : VisionUnpaddingMode → Bytes → Prop
  | .unknown, buf => ∃ blocks, buf = uuid.toList ++ blocks ∧ EndsDirect blocks
  | .padding, buf => EndsDirect buf
  | .raw, _ => False

/-- A chunk of at least 8 KiB made of complete TLS application data. -/
def isDirectRecord (data : Bytes) : Bool :=
  startsWith data [0x17, 0x03, 0x03] && decide (visionUplinkDirectMinBytes ≤ data.length) &&
    isCompleteTlsApplicationData data

/-- Among the first eight chunks a TLS handshake of at least six bytes, with handshake
chunks only before it, and such a record later on. -/
def sendsDirect (locals : List Bytes) : Bool :=
  ((locals.takeWhile isTlsHandshake).take 8).any (6 ≤ ·.length) && locals.any isDirectRecord

/-! ## The commands of the uplink -/

theorem startsWith_of_append {data p q : Bytes} (h : startsWith data (p ++ q) = true) :
    startsWith data p = true := by
  rw [startsWith, List.isPrefixOf_iff_prefix] at h ⊢
  exact (List.prefix_append p q).trans h

/-- The branch behind the first test is never taken. -/
theorem filterTls_eq (s : VisionTrafficState) (data : Bytes) :
    s.filterTls data =
      if s.packetFilterRemaining ≤ 0 then s
      else { s with
        packetFilterRemaining := s.packetFilterRemaining - 1
        isTls := s.isTls || (decide (6 ≤ data.length) && isTlsHandshake data) } := by
  unfold VisionTrafficState.filterTls isTlsHandshake
  by_cases hfilter : s.packetFilterRemaining ≤ 0
  · rw [if_pos hfilter, if_pos hfilter]
  · rw [if_neg hfilter, if_neg hfilter]
    by_cases hlen : data.length < 6
    · have hlen' : ¬ 6 ≤ data.length := by omega
      simp [hlen, hlen']
    · have hlen' : 6 ≤ data.length := by omega
      by_cases hhello : startsWith data [0x16, 0x03]
      · simp [hlen, hlen', hhello]
      · have hhello' : startsWith data [0x16, 0x03, 0x03] = false := by
          by_contra h
          rw [Bool.not_eq_false] at h
          exact hhello (startsWith_of_append (p := [0x16, 0x03]) h)
        simp [hlen, hhello, hhello']

theorem isDirectRecord_of_handshake {data : Bytes} (h : isTlsHandshake data = true) :
    isDirectRecord data = false := by
  cases data with
  | nil => rfl
  | cons a data =>
    have ha : 0x16 = a := by
      simp only [isTlsHandshake, startsWith, List.isPrefixOf, Bool.and_eq_true, beq_iff_eq] at h
      exact h.1
    rw [← ha]
    rfl

/-- Once TLS has been seen, command 2 waits for a large and complete record. -/
theorem commandFor_tls {s : VisionUplinkState} (htls : s.traffic.isTls = true)
    (hsent : s.traffic.uplink.directSent = false) (data : Bytes) :
    (isDirectRecord data = true ∧ (s.commandFor data false).1.command = 2 ∧
      (s.commandFor data false).2.padding = false) ∨
    (isDirectRecord data = false ∧ (s.commandFor data false).1.command = 0 ∧
      (s.commandFor data false).2.padding = s.padding ∧
      (s.commandFor data false).2.traffic.isTls = true ∧
      (s.commandFor data false).2.traffic.uplink.directSent = false) := by
  have htls' : (s.traffic.filterTls data).isTls = true := by
    rw [filterTls_eq]
    split <;> simp [htls]
  have hup := VisionUplinkState.filterTls_uplink s.traffic data
  have hwants : VisionUplinkState.wantsDirect (s.traffic.filterTls data) data false =
      isDirectRecord data := by
    simp [VisionUplinkState.wantsDirect, htls', hup, hsent, isDirectRecord]
  simp only [VisionUplinkState.commandFor, hwants, htls']
  by_cases hhello : isTlsHandshake data
  · rw [if_pos hhello]
    exact .inr ⟨isDirectRecord_of_handshake hhello,rfl,congrArg VisionLinkState.padding hup,
      htls',(congrArg VisionLinkState.directSent hup).trans hsent⟩
  · rw [if_neg hhello]
    by_cases hrecord : isDirectRecord data
    · rw [if_pos hrecord]
      exact .inl ⟨hrecord,rfl,rfl⟩
    · rw [if_neg hrecord, if_neg (by decide)]
      exact .inr ⟨by simpa using hrecord,rfl,congrArg VisionLinkState.padding hup,htls',
        (congrArg VisionLinkState.directSent hup).trans hsent⟩

/-- Before that, a chunk that is no handshake ends the padding. -/
theorem commandFor_plain {s : VisionUplinkState} (htls : s.traffic.isTls = false) (data : Bytes) :
    (isTlsHandshake data = false ∧ (s.commandFor data false).1.command = 1 ∧
      (s.commandFor data false).2.padding = false) ∨
    (isTlsHandshake data = true ∧
      s.commandFor data false = (.padding 0, ⟨s.traffic.filterTls data⟩)) := by
  by_cases hhello : isTlsHandshake data
  · exact .inr ⟨hhello,by rw [VisionUplinkState.commandFor, if_pos hhello]⟩
  · have htls' : (s.traffic.filterTls data).isTls = false := by
      rw [filterTls_eq]
      split <;> simp [htls, hhello]
    have hwants : VisionUplinkState.wantsDirect (s.traffic.filterTls data) data false = false := by
      simp [VisionUplinkState.wantsDirect, htls']
    simp only [VisionUplinkState.commandFor, hwants, htls']
    rw [if_neg hhello, if_neg (by decide), if_pos (by decide)]
    exact .inl ⟨by simpa using hhello,rfl,rfl⟩

theorem bridgeUplink_direct_tls {s : VisionUplinkState} (hpad : s.padding = true)
    (htls : s.traffic.isTls = true) (hsent : s.traffic.uplink.directSent = false)
    {reads : List Bytes} (hne : ∀ data ∈ reads, data ≠ []) :
    (bridgeUplink s reads).any UplinkWrite.direct = reads.any isDirectRecord := by
  induction reads generalizing s with
  | nil => rfl
  | cons data reads ih =>
    have hne' := fun d hd => hne d (List.mem_cons_of_mem _ hd)
    unfold bridgeUplink
    rw [if_neg (hne data List.mem_cons_self), if_pos hpad]
    simp only [List.any_cons, UplinkWrite.direct]
    obtain ⟨hrecord,hcmd,hend⟩ | ⟨hrecord,hcmd,hpad',htls',hsent'⟩ := commandFor_tls htls hsent data
    · simp [hrecord, hcmd]
    · rw [ih (hpad'.trans hpad) htls' hsent' hne', hrecord, hcmd]
      simp

/-- The filter looks at as many chunks as it has left. -/
theorem bridgeUplink_direct_plain {s : VisionUplinkState} (hpad : s.padding = true)
    (htls : s.traffic.isTls = false) (hsent : s.traffic.uplink.directSent = false)
    {reads : List Bytes} (hne : ∀ data ∈ reads, data ≠ []) :
    (bridgeUplink s reads).any UplinkWrite.direct =
      (((reads.takeWhile isTlsHandshake).take s.traffic.packetFilterRemaining.toNat).any
        (6 ≤ ·.length) && reads.any isDirectRecord) := by
  induction reads generalizing s with
  | nil => simp [bridgeUplink]
  | cons data reads ih =>
    have hne' := fun d hd => hne d (List.mem_cons_of_mem _ hd)
    unfold bridgeUplink
    rw [if_neg (hne data List.mem_cons_self), if_pos hpad]
    obtain ⟨hhello,hcmd,hend⟩ | ⟨hhello,hnext⟩ := commandFor_plain htls data
    · simp [hhello, hcmd, UplinkWrite.direct, bridgeUplink_plain hend hne']
    · have hrecord := isDirectRecord_of_handshake hhello
      have hup := VisionUplinkState.filterTls_uplink s.traffic data
      have hpad' : VisionUplinkState.padding ⟨s.traffic.filterTls data⟩ = true :=
        (congrArg VisionLinkState.padding hup).trans hpad
      have hsent' := (congrArg VisionLinkState.directSent hup).trans hsent
      have hfilter := filterTls_eq s.traffic data
      have hcmd : UplinkWrite.direct (.block (some data) 0 none) = false := rfl
      simp only [hnext, List.any_cons, VisionUplinkDecision.padding, hcmd, hrecord,
        List.takeWhile_cons, hhello, if_true, Bool.false_or]
      by_cases hdone : s.traffic.packetFilterRemaining ≤ 0
      · rw [if_pos hdone] at hfilter
        have hzero : s.traffic.packetFilterRemaining.toNat = 0 := by omega
        have hrest := ih hpad htls hsent hne'
        rw [hzero] at hrest ⊢
        rw [hfilter]
        exact hrest
      · rw [if_neg hdone] at hfilter
        obtain ⟨k,hk⟩ : ∃ k, s.traffic.packetFilterRemaining.toNat = k + 1 :=
          ⟨s.traffic.packetFilterRemaining.toNat - 1,by omega⟩
        rw [hk, List.take_succ_cons, List.any_cons]
        by_cases hlen : 6 ≤ data.length
        · have htls' : (s.traffic.filterTls data).isTls = true := by simp [hfilter, hlen, hhello]
          rw [bridgeUplink_direct_tls hpad' htls' hsent' hne']
          simp [hlen]
        · have htls' : (s.traffic.filterTls data).isTls = false := by simp [hfilter, hlen, htls]
          have hleft : (s.traffic.filterTls data).packetFilterRemaining.toNat = k := by
            rw [hfilter]
            simp only
            omega
          rw [ih hpad' htls' hsent' hne', hleft]
          simp [hlen]

/-- What the plain bridge takes to send command 2. -/
theorem bridgeVlessStream_direct (uuid : Uuid) (firstPayload : Option Bytes)
    {locals : List Bytes} (hne : ∀ data ∈ locals, data ≠ []) :
    (bridgeVlessStream uuid firstPayload locals).any UplinkWrite.direct = sendsDirect locals := by
  have hrest := bridgeUplink_direct_plain (s := .new) rfl rfl rfl hne
  rw [bridgeVlessStream, List.any_cons, hrest]
  rfl

/-! ## The report of the unpadding -/

/-- A unit of the padding is the decision for raw mode or a complete block. -/
theorem padding_unit_cases {uuid : Uuid} {mode : VisionUnpaddingMode} {buf rest : Bytes}
    {out : List Emit} (h : visionUnit uuid .padding buf = some (mode, rest, out)) :
    (mode = .raw ∧ out = []) ∨
    (5 ≤ buf.length ∧ blockLen buf ≤ buf.length ∧ rest = buf.drop (blockLen buf) ∧
      mode = (if buf.getD 0 0 = 0 then .padding else .raw) ∧
      out = (blockBytes buf).map .byte ++ if buf.getD 0 0 = 2 then [.direct] else []) := by
  rw [visionUnit] at h
  by_cases h5 : buf.length < 5
  · rw [if_pos h5] at h
    cases h
  · rw [if_neg h5] at h
    by_cases hcmd : 2 < buf.getD 0 0
    · rw [if_pos hcmd] at h
      cases h
      exact .inl ⟨rfl,rfl⟩
    · rw [if_neg hcmd] at h
      by_cases hblock : buf.length < blockLen buf
      · rw [if_pos hblock] at h
        cases h
      · rw [if_neg hblock] at h
        cases h
        exact .inr ⟨by omega,by omega,rfl,rfl,rfl⟩

theorem unknown_unit_cases {uuid : Uuid} {mode : VisionUnpaddingMode} {buf rest : Bytes}
    {out : List Emit} (h : visionUnit uuid .unknown buf = some (mode, rest, out)) :
    (mode = .raw ∧ out = []) ∨ (mode = .padding ∧ buf = uuid.toList ++ rest ∧ out = []) := by
  rw [visionUnit] at h
  by_cases h16 : buf.length < 16
  · rw [if_pos h16] at h
    cases h
  · rw [if_neg h16] at h
    by_cases huuid : buf.take 16 = uuid.toList
    · rw [if_pos huuid] at h
      cases h
      refine .inr ⟨rfl,?_,rfl⟩
      rw [← huuid, List.take_append_drop]
    · rw [if_neg huuid] at h
      cases h
      exact .inl ⟨rfl,rfl⟩

theorem block_run (uuid : Uuid) {buf : Bytes} (h5 : 5 ≤ buf.length)
    (hblock : blockLen buf ≤ buf.length) (hcmd : ¬ 2 < buf.getD 0 0) :
    visionUnit uuid .padding buf =
      some (if buf.getD 0 0 = 0 then .padding else .raw, buf.drop (blockLen buf),
        (blockBytes buf).map .byte ++ if buf.getD 0 0 = 2 then [.direct] else []) := by
  rw [visionUnit, if_neg (by omega), if_neg hcmd, if_neg (by omega)]

theorem endsDirect_run {uuid : Uuid} {buf : Bytes} (h : EndsDirect buf) :
    Emit.direct ∈ ((visionScanner uuid).run .padding buf).2.2 := by
  induction h with
  | last h5 hblock hcmd =>
    have hunit := block_run uuid h5 hblock (by rw [hcmd]; decide)
    rw [hcmd, if_neg (by decide), if_pos rfl] at hunit
    rw [run_to_raw hunit]
    simp
  | more h5 hblock hcmd _ ih =>
    have hunit := block_run uuid h5 hblock (by rw [hcmd]; decide)
    rw [hcmd, if_pos rfl, if_neg (by decide)] at hunit
    rw [Scanner.run_unit hunit]
    simp [ih]

/-- The unpadding reports direct mode exactly for bytes that announce it. -/
theorem announcesDirect_iff (uuid : Uuid) (mode : VisionUnpaddingMode) (buf : Bytes) :
    AnnouncesDirect uuid mode buf ↔ Emit.direct ∈ ((visionScanner uuid).run mode buf).2.2 := by
  constructor
  · intro h
    cases mode with
    | unknown =>
      obtain ⟨blocks,rfl,hblocks⟩ := h
      rw [Scanner.run_unit (uuid_unit uuid blocks)]
      exact endsDirect_run hblocks
    | padding => exact endsDirect_run h
    | raw => cases h
  · induction mode, buf using Scanner.run.induct (visionScanner uuid) with
    | case1 mode buf hwait =>
      rw [Scanner.run_wait hwait]
      intro h
      cases h
    | case2 mode buf mode' rest out hunit ih =>
      intro h
      have hunit' : visionUnit uuid mode buf = some (mode', rest, out) := hunit
      rw [Scanner.run_unit hunit, List.mem_append] at h
      cases mode with
      | unknown =>
        obtain ⟨rfl,rfl⟩ | ⟨rfl,rfl,rfl⟩ := unknown_unit_cases hunit'
        · simp [run_raw] at h
        · exact ⟨rest,rfl,ih (by simpa using h)⟩
      | padding =>
        obtain ⟨rfl,rfl⟩ | ⟨h5,hblock,rfl,rfl,rfl⟩ := padding_unit_cases hunit'
        · simp [run_raw] at h
        · by_cases hzero : buf.getD 0 0 = 0
          · rw [hzero, if_pos rfl] at h ih
            exact .more h5 hblock hzero (ih (by simpa using h))
          · by_cases htwo : buf.getD 0 0 = 2
            · exact .last h5 hblock htwo
            · rw [if_neg hzero, if_neg htwo, run_raw] at h
              obtain h | h := h
              · simp at h
              · exact ((direct_mem_map _).mp h).elim
      | raw =>
        cases buf with
        | nil => cases hunit'
        | cons b bs =>
          cases hunit'
          simp [run_raw] at h

theorem downlinkReads_direct (s : VisionUnpaddingState) (pieces : List Bytes) :
    (downlinkReads s pieces).any Read.direct = (s.pushAll pieces).2.2 := by
  induction pieces generalizing s with
  | nil => rfl
  | cons data more ih => simp [downlinkReads, writeDownlink, VisionUnpaddingState.pushAll, ih]

/-- Whether a read loop has reported direct mode depends on its bytes only. -/
theorem downlinkReads_announce (uuid : Uuid) (pieces : List Bytes) :
    (downlinkReads (.new uuid) pieces).any Read.direct = true ↔
      AnnouncesDirect uuid .unknown pieces.flatten := by
  have hwait : (visionScanner uuid).step .unknown [] = none := rfl
  have hflat := (visionScanner uuid).pushAll_flatten (.unknown,[]) hwait pieces
  have hreport := pushAll_outcome (new_valid uuid) pieces
  rw [downlinkReads_direct, hreport, announcesDirect_iff]
  simp only [VisionUnpaddingState.new, outcome, hflat, Scanner.push, List.nil_append,
    decide_eq_true_eq]

/-! ## Paths that stay on the outer TLS session -/

/-- Where nothing meets the conclusion, only the last element may meet the premise. -/
theorem pairwise_blocked {α : Type*} {p q : α → Prop} {l : List α} (hq : ∀ b ∈ l, ¬ q b) :
    (l.Pairwise fun a b => p a → q b) ↔ ∀ a ∈ l.dropLast, ¬ p a := by
  induction l with
  | nil => simp
  | cons a l ih =>
    cases l with
    | nil => simp
    | cons b l =>
      have hq' := fun c hc => hq c (List.mem_cons_of_mem _ hc)
      have hhead : (∀ c ∈ b :: l, p a → q c) ↔ ¬ p a := by
        constructor
        · intro h ha
          exact hq' b List.mem_cons_self (h b List.mem_cons_self ha)
        · intro h c _ ha
          exact absurd ha h
      rw [List.pairwise_cons, ih hq', hhead, List.dropLast_cons_cons]
      simp

theorem downlinkReads_dropLast (s : VisionUnpaddingState) (pieces : List Bytes) :
    (downlinkReads s pieces).dropLast = downlinkReads s pieces.dropLast := by
  induction pieces generalizing s with
  | nil => rfl
  | cons data more ih =>
    cases more with
    | nil => rfl
    | cons data' more =>
      have hnext := ih (writeDownlink s data).1
      have hcons : downlinkReads s (data :: data' :: more) =
          ⟨.outerTls, data, (writeDownlink s data).2, (s.push data).2.direct⟩ ::
            downlinkReads (writeDownlink s data).1 (data' :: more) := rfl
      rw [hcons, List.dropLast_cons_of_ne_nil (by simp [downlinkReads]), hnext]
      rfl

theorem downlinkReads_route (s : VisionUnpaddingState) (pieces : List Bytes) :
    ∀ r ∈ downlinkReads s pieces, ¬ r.route = .raw := by
  induction pieces generalizing s with
  | nil => simp [downlinkReads]
  | cons data more ih =>
    intro r hr
    obtain rfl | hr := List.mem_cons.mp hr
    · intro hraw
      cases hraw
    · exact ih _ r hr

/-- A read loop without a way out keeps to direct mode exactly when nothing is read
behind the bytes that announce it. -/
theorem downlinkReads_agreement (uuid : Uuid) (pieces : List Bytes) :
    ((downlinkReads (.new uuid) pieces).Pairwise fun a b => a.direct → b.route = .raw) ↔
      ¬ AnnouncesDirect uuid .unknown pieces.dropLast.flatten := by
  have hblocked := pairwise_blocked (p := fun r : Read => r.direct = true)
    (downlinkReads_route (.new uuid) pieces)
  rw [hblocked, downlinkReads_dropLast, ← downlinkReads_announce]
  simp

/-- The response header in front reports nothing. -/
theorem head_agreement (head : ResponseHead) (reads : List Read) :
    ((head.reads ++ reads).Pairwise fun a b => a.direct → b.route = .raw) ↔
      reads.Pairwise fun a b => a.direct → b.route = .raw := by
  cases head with
  | header addon => simp [ResponseHead.reads, List.pairwise_cons]
  | data first second h => rfl

/-- Without a way out, the uplink keeps to direct mode by never sending command 2. -/
theorem outerWrites_agreement (writes : List UplinkWrite) (reads : List Read) :
    Agreement false ⟨writes.map (⟨.outerTls, ·⟩), reads⟩ ↔
      writes.any UplinkWrite.direct = false ∧
        reads.Pairwise fun a b => a.direct → b.route = .raw := by
  constructor
  · intro h
    refine ⟨?_,h.reads_raw⟩
    have hno := h.no_direct rfl
    simpa using hno
  · intro ⟨hno,hreads⟩
    have hno' : ∀ w ∈ writes, w.direct = false := by simpa using hno
    refine ⟨?_,hreads,fun _ => by simpa using hno'⟩
    rw [List.pairwise_map]
    refine List.pairwise_of_forall_mem_list ?_
    intro w hw _ _ hdirect
    rw [hno' w hw] at hdirect
    cases hdirect

/-- The plain bridge keeps to direct mode exactly when the local side does not make it
send command 2 and nothing is read behind the command 2 of the peer. -/
theorem bridgeVlessTraffic_agreement (uuid : Uuid) (request : Bytes)
    (firstPayload : Option FirstPayload) (locals : List LocalRead) (head : ResponseHead)
    (remotes : List LocalRead) :
    Agreement false (bridgeVlessTraffic uuid request firstPayload locals head remotes) ↔
      sendsDirect (locals.map (·.1)) = false ∧
        ¬ AnnouncesDirect uuid .unknown (head.unpadded (remotes.map (·.1))).dropLast.flatten := by
  have hne : ∀ data ∈ locals.map (·.1), data ≠ [] := by
    intro data hd
    obtain ⟨read,_,rfl⟩ := List.mem_map.mp hd
    exact List.length_pos_iff.mp read.2.1
  have hdirect := bridgeVlessStream_direct uuid (firstPayload.map (·.1)) hne
  rw [bridgeVlessTraffic, outerWrites_agreement, head_agreement, downlinkReads_agreement,
    List.any_cons, hdirect]
  rfl

theorem muxFrames_direct (w : VlessMuxWriter) (packets : List (TargetAddress × Bytes)) :
    (muxFrames w packets).any UplinkWrite.direct = false := by
  induction packets generalizing w with
  | nil => rfl
  | cons packet packets ih =>
    obtain ⟨target,payload⟩ := packet
    unfold muxFrames
    cases encodeXudpPacket target payload w.firstPacket with
    | error e => exact ih w
    | ok frame =>
      rw [List.any_cons, ih]
      cases w with
      | mk visionUuid pending first => cases visionUuid <;> rfl

/-- The mux never sends command 2. -/
theorem muxTraffic_agreement (uuid : Uuid) (packets : List (TargetAddress × Bytes))
    (addon : { addon : Bytes // addon.length ≤ 255 }) (remotes : List MuxRead) :
    Agreement false (muxTraffic uuid packets addon remotes) ↔
      ¬ AnnouncesDirect uuid .unknown (remotes.map (·.1)).dropLast.flatten := by
  rw [muxTraffic, outerWrites_agreement, head_agreement, downlinkReads_agreement, muxFrames_direct]
  simp

/-! ## The path that leaves the outer TLS session -/

@[simp] theorem switchUplink_writeRoute (r : VisionRemote) :
    r.switchUplinkToRaw.writeRoute = .raw := by cases r <;> rfl
@[simp] theorem switchDownlink_writeRoute (r : VisionRemote) :
    r.switchDownlinkToRaw.writeRoute = r.writeRoute := by cases r <;> rfl
@[simp] theorem switchDownlink_readRoute (r : VisionRemote) :
    r.switchDownlinkToRaw.readRoute = .raw := by cases r <;> rfl
@[simp] theorem switchUplink_readRoute (r : VisionRemote) :
    r.switchUplinkToRaw.readRoute = r.readRoute := by cases r <;> rfl

namespace VisionBridge

/-- The read makes the unpadding report direct mode. -/
def Announces (b : VisionBridge) (data : Bytes) : Prop :=
  ∃ payload, (b.responseHeader.push data).1 = some payload ∧ payload ≠ [] ∧
    AnnouncesDirect b.downlink.uuid b.downlink.mode (b.downlink.pending ++ payload)

/-- A read behind which bytes stay in the TLS session: the peer announces direct mode
when the uplink has left the session already, and the socket had more to give. -/
def Strands (b : VisionBridge) : BridgeEvent → Prop
  | .remoteRead read ahead =>
    b.downlinkRaw = false ∧ b.remote ≠ .tls ∧ ahead ≠ [] ∧ b.Announces read.1
  | .localRead _ => False

def StrandsNothing (b : VisionBridge) : List BridgeEvent → Prop
  | [] => True
  | event :: events => ¬ b.Strands event ∧ (b.step event).1.StrandsNothing events

/-- What a bridge keeps from read to read. -/
structure Inv (b : VisionBridge) : Prop where
  downlink : Valid b.downlink
  raw : b.downlinkRaw = true → b.remote.readRoute = .raw

/-- Everything a remote read can do. -/
theorem remoteStep_cases {b : VisionBridge} (hb : b.Inv) (data ahead : Bytes) :
    (b.downlinkRaw = true ∧ b.remoteStep data ahead = (b, [⟨.raw, data, [data], false⟩])) ∨
    (b.downlinkRaw = false ∧ ¬ b.Announces data ∧ ∃ header downlink delivered, Valid downlink ∧
      b.remoteStep data ahead = ({ b with responseHeader := header, downlink := downlink },
        [⟨b.remote.readRoute, data, delivered, false⟩])) ∨
    (b.downlinkRaw = false ∧ b.Announces data ∧ ∃ header downlink delivered, Valid downlink ∧
      b.remoteStep data ahead =
        (⟨b.remote.switchDownlinkToRaw, header, downlink, true, true, b.uplink⟩,
          ⟨b.remote.readRoute, data, delivered, true⟩ :: b.stranded ahead)) := by
  unfold remoteStep
  cases hraw : b.downlinkRaw with
  | true => exact .inl ⟨rfl,by rw [if_pos rfl, hb.raw hraw]⟩
  | false =>
    rw [if_neg (by decide)]
    cases hpush : b.responseHeader.push data with
    | mk payload header =>
      cases payload with
      | none =>
        refine .inr (.inl ⟨rfl,?_,header,b.downlink,[],hb.downlink,rfl⟩)
        intro ⟨payload,hsome,_⟩
        rw [hpush] at hsome
        cases hsome
      | some payload =>
        by_cases hempty : payload = []
        · refine .inr (.inl ⟨rfl,?_,header,b.downlink,[],hb.downlink,if_pos hempty⟩)
          intro ⟨payload',hsome,hne,_⟩
          rw [hpush] at hsome
          cases hsome
          exact hne hempty
        · simp only
          rw [if_neg hempty]
          have hvalid := push_valid hb.downlink payload
          have hreport := (push_agrees hb.downlink payload).direct_eq
          have hannounces : b.Announces data ↔ (b.downlink.push payload).2.direct = true := by
            rw [hreport, decide_eq_true_eq, ← announcesDirect_iff]
            constructor
            · intro ⟨payload',hsome,_,h⟩
              rw [hpush] at hsome
              cases hsome
              exact h
            · intro h
              exact ⟨payload,by rw [hpush],hempty,h⟩
          cases hdirect : (b.downlink.push payload).2.direct with
          | true =>
            exact .inr (.inr ⟨trivial,hannounces.mpr hdirect,header,_,_,hvalid,by rw [if_pos rfl]⟩)
          | false =>
            refine .inr (.inl ⟨trivial,?_,header,_,_,hvalid,by rw [if_neg (by decide)]⟩)
            rw [hannounces, hdirect]
            decide

theorem localStep_read (b : VisionBridge) (data : Bytes) :
    (b.localStep data).1.downlink = b.downlink ∧
      (b.localStep data).1.downlinkRaw = b.downlinkRaw ∧
      (b.localStep data).1.remote.readRoute = b.remote.readRoute := by
  unfold localStep
  by_cases hpad : b.uplink.padding
  · rw [if_pos hpad]
    refine ⟨rfl,rfl,?_⟩
    simp only
    split <;> simp
  · rw [if_neg hpad]
    exact ⟨rfl,rfl,rfl⟩

theorem Inv.step {b : VisionBridge} (hb : b.Inv) (event : BridgeEvent) : (b.step event).1.Inv := by
  cases event with
  | remoteRead read ahead =>
    have hcases := remoteStep_cases hb read.1 ahead
    unfold VisionBridge.step
    obtain ⟨_,h⟩ | ⟨hraw,_,_,_,_,hvalid,h⟩ | ⟨_,_,_,_,_,hvalid,h⟩ := hcases
    · simp only [h]
      exact hb
    · simp only [h]
      exact ⟨hvalid,hb.raw⟩
    · simp only [h]
      exact ⟨hvalid,fun _ => switchDownlink_readRoute _⟩
  | localRead read =>
    obtain ⟨hdown,hraw,hroute⟩ := b.localStep_read read.1
    refine ⟨?_,?_⟩
    · simp only [VisionBridge.step, hdown]
      exact hb.downlink
    · simp only [VisionBridge.step, hraw, hroute]
      exact hb.raw

/-! Writes -/

/-- A step writes by the route of its state, and never goes back to the session. -/
theorem step_writes {b : VisionBridge} (hb : b.Inv) (event : BridgeEvent) :
    (∀ w ∈ (b.step event).2.writes, w.route = b.remote.writeRoute) ∧
      (b.remote.writeRoute = .raw → (b.step event).1.remote.writeRoute = .raw) ∧
      ∀ w ∈ (b.step event).2.writes, w.write.direct = true →
        (b.step event).1.remote.writeRoute = .raw := by
  cases event with
  | remoteRead read ahead =>
    have hcases := remoteStep_cases hb read.1 ahead
    unfold VisionBridge.step
    obtain ⟨_,h⟩ | ⟨_,_,_,_,_,_,h⟩ | ⟨_,_,_,_,_,_,h⟩ := hcases <;> simp [h]
  | localRead read =>
    simp only [VisionBridge.step, localStep]
    by_cases hpad : b.uplink.padding
    · rw [if_pos hpad]
      obtain ⟨hcmd,_,hdirect⟩ | ⟨hcmd,_,hdirect⟩ | ⟨hcmd,_,hdirect⟩ :=
        b.uplink.commandFor_cases read.1 b.downlinkDirectConfirmed <;>
        simp [hcmd, hdirect, UplinkWrite.direct]
    · rw [if_neg hpad]
      simp [UplinkWrite.direct]

theorem run_writes_raw {b : VisionBridge} (hb : b.Inv) (hroute : b.remote.writeRoute = .raw)
    (events : List BridgeEvent) : ∀ w ∈ (b.run events).2.writes, w.route = .raw := by
  induction events generalizing b with
  | nil => intro w hw; cases hw
  | cons event events ih =>
    obtain ⟨hby,hkeep,_⟩ := step_writes hb event
    intro w hw
    obtain hw | hw := List.mem_append.mp hw
    · rw [hby w hw, hroute]
    · exact ih (hb.step event) (hkeep hroute) w hw

/-- The uplink leaves the session with its command 2, on every run. -/
theorem run_writes_agreement {b : VisionBridge} (hb : b.Inv) (events : List BridgeEvent) :
    (b.run events).2.writes.Pairwise fun a b => a.write.direct → b.route = .raw := by
  induction events generalizing b with
  | nil => exact List.Pairwise.nil
  | cons event events ih =>
    obtain ⟨_,_,hdirect⟩ := step_writes hb event
    have hrest := ih (hb.step event)
    have hraw := fun w hw hd => run_writes_raw (hb.step event) (hdirect w hw hd) events
    refine List.pairwise_append.mpr ⟨?_,hrest,fun w hw w' hw' hd => hraw w hw hd w' hw'⟩
    cases event with
    | remoteRead read ahead => exact List.Pairwise.nil
    | localRead read => exact List.pairwise_singleton _ _

/-! Reads -/

theorem run_reads_raw {b : VisionBridge} (hb : b.Inv) (hraw : b.downlinkRaw = true)
    (events : List BridgeEvent) : ∀ r ∈ (b.run events).2.reads, r.route = .raw := by
  induction events generalizing b with
  | nil => intro r hr; cases hr
  | cons event events ih =>
    intro r hr
    have hb' := hb.step event
    cases event with
    | remoteRead read ahead =>
      obtain ⟨_,h⟩ | ⟨hno,_⟩ | ⟨hno,_⟩ := remoteStep_cases hb read.1 ahead
      · simp only [run, VisionBridge.step, h, Traffic.append, List.singleton_append] at hr hb'
        obtain rfl | hr := List.mem_cons.mp hr
        · rfl
        · exact ih hb hraw r hr
      · rw [hraw] at hno
        cases hno
      · rw [hraw] at hno
        cases hno
    | localRead read =>
      obtain ⟨_,hkeep,_⟩ := b.localStep_read read.1
      exact ih hb' (hkeep.trans hraw) r hr

theorem stranded_nil_iff (b : VisionBridge) (ahead : Bytes) :
    b.stranded ahead = [] ↔ ¬ (b.remote ≠ .tls ∧ ahead ≠ []) := by
  unfold stranded
  cases hremote : b.remote with
  | tls => simp [VisionRemote.held]
  | manual d u => by_cases h : ahead = [] <;> simp [VisionRemote.held, h]

/-- The downlink leaves the session with the command 2 of the peer exactly when no bytes
are left behind in it. -/
theorem run_reads_agreement {b : VisionBridge} (hb : b.Inv) (events : List BridgeEvent) :
    ((b.run events).2.reads.Pairwise fun a b => a.direct → b.route = .raw) ↔
      b.StrandsNothing events := by
  induction events generalizing b with
  | nil => simp [run, StrandsNothing]
  | cons event events ih =>
    have hb' := hb.step event
    have hrest := ih hb'
    unfold StrandsNothing
    rw [← hrest]
    cases event with
    | localRead read => simp [run, VisionBridge.step, Traffic.append, Strands]
    | remoteRead read ahead =>
      simp only [run, VisionBridge.step, Traffic.append, Strands] at hb' ⊢
      obtain ⟨hraw,h⟩ | ⟨hraw,hno,_,_,_,_,h⟩ | ⟨hraw,hyes,_,_,_,_,h⟩ :=
        remoteStep_cases hb read.1 ahead
      · simp [h, hraw, List.pairwise_cons]
      · simp [h, hraw, hno, List.pairwise_cons]
      · rw [h] at hb' ⊢
        have hrun := run_reads_raw hb' rfl events
        have hnil := b.stranded_nil_iff ahead
        have hstrands : ¬ (b.downlinkRaw = false ∧ b.remote ≠ .tls ∧ ahead ≠ [] ∧
            b.Announces read.1) ↔ b.stranded ahead = [] := by
          rw [hnil]
          simp [hraw, hyes]
        rw [hstrands, List.cons_append, List.pairwise_cons]
        by_cases hstay : b.stranded ahead = []
        · rw [hstay, List.nil_append]
          simp only [true_and]
          exact and_iff_right fun r hr _ => hrun r hr
        · have hfirst : ⟨.outerTls, b.remote.held ahead, [], false⟩ ∈ b.stranded ahead := by
            unfold stranded at hstay ⊢
            split
            · simp_all
            · exact List.mem_singleton_self _
          constructor
          · intro hall
            have hroute := hall.1 _ (List.mem_append_left _ hfirst) rfl
            cases hroute
          · intro hall
            exact absurd hall.1 hstay

end VisionBridge

theorem start_inv (uuid : Uuid) : (VisionBridge.start uuid).Inv :=
  ⟨new_valid uuid,fun h => by cases h⟩

/-- The bridge that splits the raw stream off keeps to direct mode exactly when no bytes
are left behind in the session. -/
theorem bridgeVisionTraffic_agreement (uuid : Uuid) (request : Bytes)
    (firstPayload : Option FirstPayload) (events : List BridgeEvent) :
    Agreement true (bridgeVisionTraffic uuid request firstPayload events) ↔
      (VisionBridge.start uuid).StrandsNothing events := by
  have hreads := VisionBridge.run_reads_agreement (start_inv uuid) events
  have hwrites := VisionBridge.run_writes_agreement (start_inv uuid) events
  constructor
  · intro h
    exact hreads.mp h.reads_raw
  · intro h
    refine ⟨?_,hreads.mpr h,fun hno => by cases hno⟩
    simpa [bridgeVisionTraffic, Traffic.append, UplinkWrite.direct] using hwrites

/-- One TLS record of application data. -/
def tlsApplicationData (content : Bytes) : Bytes :=
  [0x17, 0x03, 0x03] ++ be16 content.length ++ content

theorem tlsApplicationData_direct {content : Bytes} (hlong : 8187 ≤ content.length)
    (hlen : content.length < 65536) : isDirectRecord (tlsApplicationData content) = true := by
  have hlength : (tlsApplicationData content).length = 5 + content.length := by
    simp [tlsApplicationData]
    omega
  have hrecord : ofBe16 ((tlsApplicationData content).getD 3 0)
      ((tlsApplicationData content).getD 4 0) = content.length := ofBe16_of_lt hlen
  have htype : (tlsApplicationData content).take 3 = [0x17, 0x03, 0x03] := rfl
  have hrest : (tlsApplicationData content).drop (5 + content.length) = [] := by
    exact List.drop_eq_nil_of_le (Nat.le_of_eq hlength)
  have hne : tlsApplicationData content ≠ [] := by simp [tlsApplicationData]
  have hcomplete : isCompleteTlsApplicationData (tlsApplicationData content) = true := by
    rw [isCompleteTlsApplicationData, dif_neg hne, if_neg (by omega), if_neg (by simp [htype])]
    simp only [hrecord, hrest]
    rw [if_neg (by omega), isCompleteTlsApplicationData, dif_pos rfl]
  have hstart : startsWith (tlsApplicationData content) [0x17, 0x03, 0x03] = true := rfl
  have hmin : visionUplinkDirectMinBytes ≤ 5 + content.length := by
    rw [visionUplinkDirectMinBytes]
    omega
  simp [isDirectRecord, hstart, hcomplete, hlength, hmin]

end AtlasKernel.Vless
