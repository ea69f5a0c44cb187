import AtlasKernel.AnyTls.Padding
import AtlasKernel.Lib.Steps
import AtlasKernel.Vless.Xudp

/-! What the streams of an AnyTLS session write, and the write loop that puts it on the
wire. Source: `adapter/anytls.rs`. -/
namespace AtlasKernel.AnyTls
open AtlasKernel.Lib
open AtlasKernel.Vless (TargetAddress)

inductive SessionWrite where
  | raw (bytes : Bytes)
  | frames (bytes : Bytes)
  | frame (f : Frame)
  | close
deriving DecidableEq, Repr

/-- An `AnyTlsStream` as far as it writes. -/
structure WritingStream where
  streamId : UInt32
  closed : Bool
  live : Bool
deriving DecidableEq, Repr

/-- `queue` is the channel between `write_tx` and `write_rx`, which is there as long as the
write loop is `running`; `alive` is that a strong reference to the session is left. -/
structure WritingSession where
  queue : List SessionWrite
  running : Bool
  closed : Bool
  alive : Bool
  nextStreamId : UInt32
  padding : PaddingState
  streams : List WritingStream
  wire : Bytes
deriving DecidableEq, Repr

def encodeSocksAddress (target : TargetAddress) : Except String Bytes :=
  match parseIpv4 target.hostBytes with
  | some octets => .ok ([1] ++ octets ++ be16 target.port.toNat)
  | none =>
    match parseIpv6 target.hostBytes with
    | some octets => .ok ([4] ++ octets ++ be16 target.port.toNat)
    | none =>
      if 255 < target.hostBytes.length then .error "AnyTLS target domain is too long"
      else .ok ([3, UInt8.ofNat target.hostBytes.length] ++ target.hostBytes ++
        be16 target.port.toNat)

/-! ## Opening the session -/

def sendAuthentication (passwordHash : Vector UInt8 32) : SessionWrite :=
  .raw (passwordHash.toList ++ be16 30 ++ List.replicate 30 0)

def settings (padding : PaddingFactory) : Bytes :=
  utf8 ("v=2\nclient=neoncore/0.1.0\npadding-md5=".toList ++ padding.md5)

/-- The session with what `create_session` has queued for it. -/
def createSession (md5 : Md5) (draw : Nat → Nat → Nat) (passwordHash : Vector UInt8 32) :
    Except String WritingSession :=
  match PaddingFactory.default md5 draw with
  | .error _ => .error "default AnyTLS padding scheme should be valid"
  | .ok padding =>
    match appendFrame [] cmdSettings 0 (settings padding) with
    | .error e => .error e
    | .ok frame =>
      .ok ⟨[sendAuthentication passwordHash, .frames frame], true, false, true, 1, ⟨padding, 1⟩,
        [], []⟩

namespace WritingSession

/-! ## Sending -/

/-- `write_tx.send` -/
def send (s : WritingSession) (item : SessionWrite) : Option WritingSession :=
  if s.running then some { s with queue := s.queue ++ [item] } else none

/-- The SYN frame and the destination of a new stream, in one piece. -/
def initialFrames (streamId : UInt32) (target : TargetAddress) : Except String Bytes :=
  match appendFrame [] cmdSyn streamId [] with
  | .error e => .error e
  | .ok initial =>
    match encodeSocksAddress target with
    | .error e => .error e
    | .ok destination => appendFrame initial cmdPush streamId destination

/-- `next_stream_id.fetch_add(1)` -/
def takeStreamId (s : WritingSession) : WritingSession :=
  { s with nextStreamId := s.nextStreamId + 1 }

def addStream (s : WritingSession) (streamId : UInt32) : WritingSession :=
  { s with streams := s.streams ++ [⟨streamId, false, true⟩] }

def openStream (s : WritingSession) (target : TargetAddress) :
    Except String UInt32 × WritingSession :=
  if s.closed then (.error "AnyTLS session is closed", s)
  else
    match initialFrames s.nextStreamId target with
    | .error e => (.error e, s.takeStreamId)
    | .ok initial =>
      match s.takeStreamId.send (.frames initial) with
      | none => (.error "AnyTLS writer is closed", s.takeStreamId)
      | some s' => (.ok s.nextStreamId, s'.addStream s.nextStreamId)

def pollWrite (s : WritingSession) (stream : WritingStream) (data : Bytes) :
    Except String Nat × WritingSession :=
  if stream.closed || s.closed then (.error "AnyTLS stream is closed", s)
  else
    match s.send (.frame ⟨cmdPush, stream.streamId, data⟩) with
    | none => (.error "AnyTLS closed", s)
    | some s' => (.ok data.length, s')

/-- `finish_stream`: whether the FIN frame can be sent does not matter. -/
def finishStream (s : WritingSession) (streamId : UInt32) : WritingSession :=
  (s.send (.frame ⟨cmdFin, streamId, []⟩)).getD s

def setClosed (s : WritingSession) : WritingSession := { s with closed := true }

def close (s : WritingSession) : WritingSession := (s.setClosed.send .close).getD s.setClosed

/-! ## The write loop -/

/-- What an item puts on the wire, and the error it ends in. -/
def emit (padding : PaddingState) : SessionWrite → (Bytes × Except String Unit) × PaddingState
  | .raw bytes => ((bytes, .ok ()), padding)
  | .frames bytes => writeWithPadding padding bytes
  | .frame f =>
    match appendFrame [] f.cmd f.streamId f.data with
    | .error e => (([], .error e), padding)
    | .ok bytes => writeWithPadding padding bytes
  | .close => (([], .ok ()), padding)

/-- One turn of `write_loop`. The socket takes everything, or fails after `taken` bytes. -/
def writeTurn (s : WritingSession) (taken : Option Nat) : WritingSession :=
  match s.running, s.queue with
  | true, item :: rest =>
    if !s.alive || item = .close then { s with running := false, queue := rest }
    else
      let r := emit s.padding item
      let s' := { s with queue := rest, padding := r.2 }
      match r.1.2, taken with
      | .ok (), none => { s' with wire := s.wire ++ r.1.1 }
      | .error _, none => { s' with wire := s.wire ++ r.1.1, closed := true, running := false }
      | _, some taken =>
        { s' with wire := s.wire ++ r.1.1.take taken, closed := true, running := false }
  | _, _ => s

end WritingSession

/-! ## Runs -/

/-- What happens to a session: calls of its streams (by their index), frames of the server,
the end of the read loop, `cleanup_idle` on an idle session, the last reference going, and
the turns of the write loop. -/
inductive WriteEvent where
  | openStream (target : TargetAddress)
  | pollWrite (i : Nat) (data : Bytes)
  | shutdown (i : Nat)
  | dropStream (i : Nat)
  | heartRequest (streamId : UInt32)
  | updatePaddingScheme (md5 : Md5) (draw : Nat → Nat → Nat) (raw : Bytes)
  | closeSession
  | cleanupIdle
  | release
  | writeTurn (taken : Option Nat)

/-- What a run puts down: a frame that the session took for its wire, or a closing from
outside the write loop. -/
inductive WriteLog where
  | sent (f : Frame)
  | closing
deriving DecidableEq, Repr

def openingFrames (streamId : UInt32) (target : TargetAddress) : List Frame :=
  match encodeSocksAddress target with
  | .error _ => []
  | .ok destination => [⟨cmdSyn, streamId, []⟩, ⟨cmdPush, streamId, destination⟩]

namespace WritingSession

def setStream (s : WritingSession) (i : Nat) (stream : WritingStream) : WritingSession :=
  { s with streams := s.streams.set i stream }

def liveStream (s : WritingSession) (i : Nat) : Option WritingStream :=
  (s.streams[i]?).filter (·.live)

def idle (s : WritingSession) : Bool := s.streams.all (!·.live)

def taken (s : WritingSession) (f : Frame) : List WriteLog := if s.running then [.sent f] else []

def step (s : WritingSession) : WriteEvent → WritingSession × List WriteLog
  | .openStream target =>
    if s.alive then
      match s.openStream target with
      | (.ok streamId, s') => (s', (openingFrames streamId target).map .sent)
      | (.error _, s') => (s', [])
    else (s, [])
  | .pollWrite i data =>
    match s.liveStream i with
    | none => (s, [])
    | some stream =>
      match s.pollWrite stream data with
      | (.ok n, s') => (s', [.sent ⟨cmdPush, stream.streamId, data.take n⟩])
      | (.error _, s') => (s', [])
  | .shutdown i =>
    match s.liveStream i with
    | none => (s, [])
    | some stream =>
      if stream.closed then (s, [])
      else ((s.finishStream stream.streamId).setStream i { stream with closed := true },
        s.taken ⟨cmdFin, stream.streamId, []⟩)
  | .dropStream i =>
    match s.liveStream i with
    | none => (s, [])
    | some stream =>
      if stream.closed then (s.setStream i { stream with live := false }, [])
      else ((s.finishStream stream.streamId).setStream i { stream with live := false },
        s.taken ⟨cmdFin, stream.streamId, []⟩)
  | .heartRequest streamId =>
    if s.alive then
      ((s.send (.frame ⟨cmdHeartResponse, streamId, []⟩)).getD s,
        s.taken ⟨cmdHeartResponse, streamId, []⟩)
    else (s, [])
  | .updatePaddingScheme md5 draw raw =>
    match PaddingFactory.new md5 draw raw with
    | .error _ => (s, [])
    | .ok next => ({ s with padding := { s.padding with padding := next } }, [])
  | .closeSession => if s.alive then (s.setClosed, [.closing]) else (s, [])
  | .cleanupIdle => if s.alive && s.idle then (s.close, [.closing]) else (s, [])
  | .release => if s.idle then ({ s with alive := false }, []) else (s, [])
  | .writeTurn taken => (s.writeTurn taken, [])

end WritingSession

/-! ## What is carried -/

namespace SessionWrite

/-- The frames in an item of the queue. -/
def pending : SessionWrite → List Frame
  | .raw _ => []
  | .frames bytes => (decodeFrames bytes).1
  | .frame f => [f]
  | .close => []

/-- How many bytes the item hands to `write_with_padding`. -/
def paddedLen : SessionWrite → Option Nat
  | .raw _ => none
  | .frames bytes => some bytes.length
  | .frame f => some f.bytes.length
  | .close => none

end SessionWrite

def pending (queue : List SessionWrite) : List Frame := queue.flatMap SessionWrite.pending

def pushes (streamId : UInt32) (fs : List Frame) : List Bytes :=
  (fs.filter fun f => f.cmd = cmdPush ∧ f.streamId = streamId).map Frame.data

def WriteLog.frame : WriteLog → Option Frame
  | .sent f => some f
  | .closing => none

def sentFrames (log : List WriteLog) : List Frame := log.filterMap WriteLog.frame

/-- No PUSH frame waits to be written. -/
def NoPush (queue : List SessionWrite) : Prop := ∀ f ∈ pending queue, f.cmd ≠ cmdPush

instance (queue : List SessionWrite) : Decidable (NoPush queue) :=
  inferInstanceAs (Decidable (∀ f ∈ pending queue, _))

/-- The wire behind the authentication parses into frames. For each stream the PUSH frames
are those that were taken for it, less what waits in the queue; while the write loop runs
all frames are, in one order, but for WASTE frames. Only a closing from outside closes the
session. -/
def Carried (s : WritingSession) (log : List WriteLog) : Prop :=
  (s.closed = true → .closing ∈ log) ∧
  ∃ parsed, decodeFrames (s.wire.drop 64) = (parsed, []) ∧
    (∀ streamId, pushes streamId parsed ++ pushes streamId (pending s.queue) =
      pushes streamId (sentFrames log)) ∧
    (s.running = true →
      ∃ written, Interleaved written parsed ∧ written ++ pending s.queue = sentFrames log)

/-- No buffer larger than a frame can be; every packet is padded within bounds, on a socket
that takes it; and the session is not given up with data in its queue. -/
def WriteEvent.Fits (s : WritingSession) : WriteEvent → Prop
  | .pollWrite _ data => data.length ≤ 65535
  | .writeTurn taken =>
    taken = none ∧ (s.running = true → s.alive = true →
      ∀ item ∈ s.queue.head?, ∀ len ∈ item.paddedLen, s.padding.Fits len)
  | .release => NoPush s.queue
  | _ => True

instance (s : WritingSession) : (event : WriteEvent) → Decidable (event.Fits s)
  | .pollWrite .. | .writeTurn _ | .release => by
    unfold WriteEvent.Fits
    infer_instance
  | .openStream _ | .shutdown _ | .dropStream _ | .heartRequest _ | .updatePaddingScheme ..
  | .closeSession | .cleanupIdle => .isTrue trivial

/-! ## The queue and the wire -/

theorem Interleaved.append {fs gs ps qs : List Frame} (h : Interleaved fs ps)
    (h' : Interleaved gs qs) : Interleaved (fs ++ gs) (ps ++ qs) := by
  induction h with
  | nil => exact h'
  | frame f _ ih => exact .frame f ih
  | waste f hf _ ih => exact .waste f hf ih

theorem pushes_append (streamId : UInt32) (fs gs : List Frame) :
    pushes streamId (fs ++ gs) = pushes streamId fs ++ pushes streamId gs := by
  rw [pushes, List.filter_append, List.map_append]
  rfl

theorem pushes_eq_nil {fs : List Frame} (h : ∀ f ∈ fs, f.cmd ≠ cmdPush) (streamId : UInt32) :
    pushes streamId fs = [] := by
  rw [pushes, List.map_eq_nil_iff, List.filter_eq_nil_iff]
  intro f hf
  simp [h f hf]

theorem Interleaved.pushes_eq {fs ps : List Frame} (h : Interleaved fs ps) (streamId : UInt32) :
    pushes streamId ps = pushes streamId fs := by
  induction h with
  | nil => rfl
  | @frame fs ps f _ ih =>
    have hcons (gs : List Frame) : f :: gs = [f] ++ gs := rfl
    rw [hcons ps, hcons fs, pushes_append, pushes_append, ih]
  | @waste fs ps f hf _ ih =>
    have hcons : f :: ps = [f] ++ ps := rfl
    have hnone : pushes streamId [f] = [] := by
      refine pushes_eq_nil ?_ streamId
      rw [List.forall_mem_singleton, hf]
      decide
    rw [hcons, pushes_append, hnone, ih, List.nil_append]

theorem pending_append (queue queue' : List SessionWrite) :
    pending (queue ++ queue') = pending queue ++ pending queue' := List.flatMap_append

theorem noPush_append {queue queue' : List SessionWrite} :
    NoPush (queue ++ queue') ↔ NoPush queue ∧ NoPush queue' := by
  rw [NoPush, pending_append]
  exact List.forall_mem_append

/-- Items other than the authentication, made of frames. -/
def SessionWrite.Sound : SessionWrite → Prop
  | .raw _ => False
  | .frames bytes => ∃ fs : List Frame, (∀ f ∈ fs, f.WellFormed) ∧ bytes = fs.flatMap Frame.bytes
  | .frame f => f.WellFormed
  | .close => True

/-- Behind `Close` there are no PUSH frames. -/
def ClosesLast : List SessionWrite → Prop
  | [] => True
  | .close :: rest => NoPush rest
  | _ :: rest => ClosesLast rest

theorem closesLast_append {queue : List SessionWrite} {item : SessionWrite}
    (h : ClosesLast queue) (hitem : NoPush [item] ∨ .close ∉ queue) :
    ClosesLast (queue ++ [item]) := by
  induction queue with
  | nil =>
    cases item with
    | close => exact fun f hf => absurd hf (by simp [pending])
    | _ => trivial
  | cons first rest ih =>
    have hrest : NoPush [item] ∨ .close ∉ rest :=
      hitem.imp_right fun hmem => mt (List.mem_cons_of_mem first) hmem
    cases first with
    | close =>
      obtain hitem | hmem := hitem
      · exact noPush_append.mpr ⟨h, hitem⟩
      · exact absurd List.mem_cons_self hmem
    | raw _ => exact ih h hrest
    | frames _ => exact ih h hrest
    | frame _ => exact ih h hrest

/-- While the write loop runs: what is on the wire and what waits is all that was taken. -/
structure Going (queue : List SessionWrite) (wire : Bytes) (taken parsed written : List Frame) :
    Prop where
  whole : written ++ pending queue = taken
  interleaved : Interleaved written parsed
  wellFormed : ∀ f ∈ parsed, f.WellFormed
  last : ClosesLast queue
  wire : (∃ auth rest, queue = .raw auth :: rest ∧ auth.length = 64 ∧
      (∀ item ∈ rest, item.Sound) ∧ wire = [] ∧ parsed = []) ∨
    ((∀ item ∈ queue, item.Sound) ∧
      ∃ auth, auth.length = 64 ∧ wire = auth ++ parsed.flatMap Frame.bytes)

/-- When it has ended, nothing taken is left to be carried. -/
structure Ended (queue : List SessionWrite) (wire : Bytes) (taken parsed : List Frame) :
    Prop where
  none : NoPush queue
  decoded : decodeFrames (wire.drop 64) = (parsed, [])
  pushes : ∀ streamId, pushes streamId parsed = pushes streamId taken

variable {queue rest : List SessionWrite} {wire : Bytes} {taken parsed written : List Frame}
  {item : SessionWrite}

theorem Going.decoded (h : Going queue wire taken parsed written) :
    decodeFrames (wire.drop 64) = (parsed, []) := by
  obtain ⟨_,_,_,_,_,rfl,rfl⟩ | ⟨_,auth,hauth,rfl⟩ := h.wire
  · exact decodeFrames_nil
  · rw [← hauth, List.drop_left]
    exact decodeFrames_all h.wellFormed

theorem Going.send (h : Going queue wire taken parsed written) (hsound : item.Sound)
    (hpush : NoPush [item] ∨ .close ∉ queue) :
    Going (queue ++ [item]) wire (taken ++ item.pending) parsed written := by
  refine ⟨?_, h.interleaved, h.wellFormed, closesLast_append h.last hpush, ?_⟩
  · rw [pending_append, ← List.append_assoc, h.whole]
    simp [pending]
  · obtain ⟨auth,rest,rfl,hauth,hitems,hwire⟩ | ⟨hitems,hwire⟩ := h.wire
    · refine .inl ⟨auth, rest ++ [item], rfl, hauth, ?_, hwire⟩
      rw [List.forall_mem_append]
      exact ⟨hitems, List.forall_mem_singleton.mpr hsound⟩
    · refine .inr ⟨?_, hwire⟩
      rw [List.forall_mem_append]
      exact ⟨hitems, List.forall_mem_singleton.mpr hsound⟩

/-- The loop leaves with what it has not written. -/
theorem Going.stop (h : Going queue wire taken parsed written) (hnone : NoPush queue)
    (hrest : NoPush rest) : Ended rest wire taken parsed := by
  refine ⟨hrest, h.decoded, fun streamId => ?_⟩
  rw [h.interleaved.pushes_eq, ← h.whole, pushes_append, pushes_eq_nil hnone, List.append_nil]

theorem Going.authentication {auth : Bytes}
    (h : Going (.raw auth :: rest) wire taken parsed written) :
    Going rest (wire ++ auth) taken parsed written := by
  refine ⟨h.whole, h.interleaved, h.wellFormed, h.last, ?_⟩
  obtain ⟨_,_,heq,hauth,hitems,rfl,rfl⟩ | ⟨hitems,_⟩ := h.wire
  · cases heq
    exact .inr ⟨hitems, auth, hauth, by rw [List.flatMap_nil, List.append_nil, List.nil_append]⟩
  · exact (hitems _ List.mem_cons_self).elim

/-- A packet goes out with WASTE frames behind it. -/
theorem Going.packet (h : Going (item :: rest) wire taken parsed written) {ws : List Frame}
    (hclose : item ≠ .close) (hraw : ∀ auth, item ≠ .raw auth)
    (hitem : ∀ f ∈ item.pending, f.WellFormed) (hws : ∀ w ∈ ws, w.IsWaste) :
    Going rest (wire ++ (item.pending.flatMap Frame.bytes ++ ws.flatMap Frame.bytes)) taken
      (parsed ++ (item.pending ++ ws)) (written ++ item.pending) := by
  refine ⟨?_, h.interleaved.append (.append_waste _ ws hws), ?_, ?_, ?_⟩
  · rw [List.append_assoc]
    exact h.whole
  · intro f hf
    simp only [List.mem_append] at hf
    obtain hf | hf | hf := hf
    · exact h.wellFormed f hf
    · exact hitem f hf
    · exact (hws f hf).1
  · have hlast := h.last
    cases item with
    | close => exact absurd rfl hclose
    | raw auth => exact absurd rfl (hraw auth)
    | frames _ => exact hlast
    | frame _ => exact hlast
  · obtain ⟨auth,_,heq,_⟩ | ⟨hitems,auth,hauth,rfl⟩ := h.wire
    · cases heq
      exact absurd rfl (hraw auth)
    · refine .inr ⟨(List.forall_mem_cons.mp hitems).2, auth, hauth, ?_⟩
      simp only [List.flatMap_append, List.append_assoc]

theorem SessionWrite.Sound.pending (h : item.Sound) : ∀ f ∈ item.pending, f.WellFormed := by
  cases item with
  | raw _ => exact h.elim
  | frames bytes =>
    obtain ⟨fs,hfs,rfl⟩ := h
    rw [SessionWrite.pending, decodeFrames_all hfs]
    exact hfs
  | frame f => exact List.forall_mem_singleton.mpr h
  | close => exact nofun

/-- What the write loop makes of an item that is padded within bounds. -/
theorem emit_sound {padding : PaddingState} (h : item.Sound)
    (hfits : ∀ len ∈ item.paddedLen, padding.Fits len) :
    ∃ ws : List Frame, (∀ w ∈ ws, w.IsWaste) ∧
      (WritingSession.emit padding item).1 =
        (item.pending.flatMap Frame.bytes ++ ws.flatMap Frame.bytes, .ok ()) := by
  cases item with
  | raw _ => exact h.elim
  | frames bytes =>
    obtain ⟨fs,hfs,rfl⟩ := h
    rw [SessionWrite.pending, decodeFrames_all hfs]
    exact (hfits _ rfl).written
  | frame f =>
    obtain ⟨ws,hws,heq⟩ := (hfits _ rfl).written
    refine ⟨ws, hws, ?_⟩
    rw [WritingSession.emit, appendFrame_ok h, SessionWrite.pending, List.flatMap_singleton]
    exact heq
  | close => exact ⟨[], nofun, rfl⟩

/-! ## Every step -/

namespace WritingSession

structure Inv (s : WritingSession) (log : List WriteLog) : Prop where
  closed : s.closed = true → .closing ∈ log
  going : s.running = true → ∃ parsed written,
    Going s.queue s.wire (sentFrames log) parsed written
  ended : s.running = false → ∃ parsed, Ended s.queue s.wire (sentFrames log) parsed
  unclosed : s.closed = false → .close ∉ s.queue
  released : s.alive = false → s.idle = true ∧ (s.running = true → NoPush s.queue)

theorem Inv.carried {s : WritingSession} {log : List WriteLog} (h : s.Inv log) :
    Carried s log := by
  refine ⟨h.closed, ?_⟩
  cases hrun : s.running with
  | true =>
    obtain ⟨parsed,written,hgoing⟩ := h.going hrun
    refine ⟨parsed, hgoing.decoded, fun streamId => ?_, fun _ => ⟨written, hgoing.interleaved,
      hgoing.whole⟩⟩
    rw [hgoing.interleaved.pushes_eq, ← pushes_append, hgoing.whole]
  | false =>
    obtain ⟨parsed,hended⟩ := h.ended hrun
    refine ⟨parsed, hended.decoded, fun streamId => ?_, nofun⟩
    rw [pushes_eq_nil hended.none, List.append_nil, hended.pushes]

variable {s s' : WritingSession} {log : List WriteLog}

theorem sentFrames_append (log : List WriteLog) (fs : List Frame) :
    sentFrames (log ++ fs.map .sent) = sentFrames log ++ fs := by
  have hfs : (fs.map WriteLog.sent).filterMap WriteLog.frame = fs := by
    induction fs with
    | nil => rfl
    | cons f fs ih => exact congrArg (f :: ·) ih
  rw [sentFrames, List.filterMap_append, hfs]
  rfl

theorem send_some (h : s.send item = some s') :
    s.running = true ∧ s' = { s with queue := s.queue ++ [item] } := by
  rw [send] at h
  split at h
  case isTrue hrun =>
    cases h
    exact ⟨hrun, rfl⟩
  case isFalse => cases h

theorem send_none (h : s.send item = none) : s.running = false := by
  rw [send] at h
  split at h
  case isTrue => cases h
  case isFalse hrun => exact Bool.not_eq_true _ ▸ hrun

/-- A step that sends nothing leaves the log alone. -/
theorem Inv.silent (h : s.Inv log) : s.Inv (log ++ []) := (List.append_nil log).symm ▸ h

theorem Inv.same (h : s.Inv log) (hqueue : s'.queue = s.queue) (hwire : s'.wire = s.wire)
    (hrunning : s'.running = s.running) (hclosed : s'.closed = s.closed)
    (halive : s'.alive = s.alive) (hidle : s.alive = false → s.idle = true → s'.idle = true) :
    s'.Inv log := by
  refine ⟨?_, ?_, ?_, ?_, ?_⟩
  · rw [hclosed]
    exact h.closed
  · rw [hqueue, hwire, hrunning]
    exact h.going
  · rw [hqueue, hwire, hrunning]
    exact h.ended
  · rw [hqueue, hclosed]
    exact h.unclosed
  · rw [halive, hrunning, hqueue]
    exact fun hgone => ⟨hidle hgone (h.released hgone).1, (h.released hgone).2⟩

theorem Inv.send (h : s.Inv log) (hsend : s.send item = some s') (hsound : item.Sound)
    (hpush : NoPush [item] ∨ s.closed = false ∧ s.alive = true)
    (hclose : item = .close → s.closed = true) : s'.Inv (log ++ item.pending.map .sent) := by
  obtain ⟨hrun,rfl⟩ := send_some hsend
  refine ⟨fun hclosed => List.mem_append_left _ (h.closed hclosed), fun _ => ?_, fun hstop => ?_,
    fun hopen => ?_, fun hgone => ⟨(h.released hgone).1, fun _ => ?_⟩⟩
  · obtain ⟨parsed,written,hgoing⟩ := h.going hrun
    rw [sentFrames_append]
    exact ⟨parsed, written, hgoing.send hsound (hpush.imp_right fun hp => h.unclosed hp.1)⟩
  · exact absurd (hrun.symm.trans hstop) (by decide)
  · rw [List.mem_append, List.mem_singleton]
    rintro (hmem | rfl)
    · exact h.unclosed hopen hmem
    · exact absurd ((hclose rfl).symm.trans hopen) (by decide)
  · obtain hpush | ⟨_,halive⟩ := hpush
    · exact noPush_append.mpr ⟨(h.released hgone).2 hrun, hpush⟩
    · exact absurd (halive.symm.trans hgone) (by decide)

/-- A frame without data that is sent if there is still a write loop to take it. -/
theorem Inv.control (h : s.Inv log) (cmd : UInt8) (streamId : UInt32) (hcmd : cmd ≠ cmdPush) :
    ((s.send (.frame ⟨cmd, streamId, []⟩)).getD s).Inv (log ++ s.taken ⟨cmd, streamId, []⟩) := by
  cases hsend : s.send (.frame ⟨cmd, streamId, []⟩) with
  | none =>
    rw [taken, send_none hsend]
    rw [if_neg (by decide), List.append_nil]
    exact h
  | some s' =>
    rw [taken, (send_some hsend).1, if_pos rfl]
    refine h.send hsend (Nat.zero_le _) (.inl ?_) nofun
    exact fun f hf => List.mem_singleton.mp hf ▸ hcmd

theorem Inv.setClosed (h : s.Inv log) : s.setClosed.Inv (log ++ [WriteLog.closing]) := by
  have hsent : sentFrames (log ++ [WriteLog.closing]) = sentFrames log := by
    rw [sentFrames, List.filterMap_append]
    exact List.append_nil _
  refine ⟨fun _ => List.mem_append_right _ List.mem_cons_self, ?_, ?_, nofun, h.released⟩
  · rw [hsent]
    exact h.going
  · rw [hsent]
    exact h.ended

theorem Inv.close (h : s.Inv log) : s.close.Inv (log ++ [WriteLog.closing]) := by
  rw [WritingSession.close]
  cases hsend : s.setClosed.send .close with
  | none => exact h.setClosed
  | some s' =>
    have hclose := h.setClosed.send hsend trivial (.inl nofun) fun _ => rfl
    rw [SessionWrite.pending, List.map_nil, List.append_nil] at hclose
    exact hclose

theorem initialFrames_ok {streamId : UInt32} {target : TargetAddress} {initial : Bytes}
    (h : initialFrames streamId target = .ok initial) :
    (∀ f ∈ openingFrames streamId target, f.WellFormed) ∧
      initial = (openingFrames streamId target).flatMap Frame.bytes := by
  rw [initialFrames] at h
  rw [openingFrames]
  cases hsyn : appendFrame [] cmdSyn streamId [] with
  | error e => simp [hsyn] at h
  | ok syn =>
    cases hdest : encodeSocksAddress target with
    | error e => simp [hsyn, hdest] at h
    | ok destination =>
      simp only [hsyn, hdest] at h
      obtain ⟨hwf,rfl⟩ := @appendFrame_eq_ok ⟨cmdSyn, streamId, []⟩ _ _ hsyn
      obtain ⟨hwf',rfl⟩ := @appendFrame_eq_ok ⟨cmdPush, streamId, destination⟩ _ _ h
      refine ⟨List.forall_mem_cons.mpr ⟨hwf, List.forall_mem_singleton.mpr hwf'⟩, ?_⟩
      rw [List.flatMap_cons, List.flatMap_singleton, List.nil_append]

theorem openStream_cases (s : WritingSession) (target : TargetAddress) :
    (∃ e s', s.openStream target = (.error e, s') ∧ (s' = s ∨ s' = s.takeStreamId)) ∨
    ∃ initial s', s.closed = false ∧ initialFrames s.nextStreamId target = .ok initial ∧
      s.takeStreamId.send (.frames initial) = some s' ∧
      s.openStream target = (.ok s.nextStreamId, s'.addStream s.nextStreamId) := by
  rw [WritingSession.openStream]
  cases hclosed : s.closed with
  | true => exact .inl ⟨_, _, rfl, .inl rfl⟩
  | false =>
    cases hinitial : initialFrames s.nextStreamId target with
    | error e => exact .inl ⟨e, _, rfl, .inr rfl⟩
    | ok initial =>
      cases hsend : s.takeStreamId.send (.frames initial) with
      | none =>
        refine .inl ⟨"AnyTLS writer is closed", _, ?_, .inr rfl⟩
        simp [hsend]
      | some s' => exact .inr ⟨initial, s', rfl, rfl, hsend, by simp [hsend]⟩

theorem Inv.step_openStream (h : s.Inv log) (target : TargetAddress) :
    (s.step (.openStream target)).1.Inv (log ++ (s.step (.openStream target)).2) := by
  have hnext : s.takeStreamId.Inv log := h.same rfl rfl rfl rfl rfl fun _ => id
  rw [step]
  cases halive : s.alive with
  | false => exact h.silent
  | true =>
    rw [if_pos rfl]
    obtain ⟨e,s',heq,rfl | rfl⟩ | ⟨initial,s',hclosed,hinitial,hsend,heq⟩ :=
      s.openStream_cases target
    · rw [heq]
      exact h.silent
    · rw [heq]
      exact hnext.silent
    · obtain ⟨hwf,rfl⟩ := initialFrames_ok hinitial
      have hsent := hnext.send hsend ⟨_, hwf, rfl⟩ (.inr ⟨hclosed, halive⟩) nofun
      have halive' : s'.alive = true := by
        rw [(send_some hsend).2]
        exact halive
      rw [SessionWrite.pending, decodeFrames_all hwf] at hsent
      rw [heq]
      exact hsent.same rfl rfl rfl rfl rfl fun hgone =>
        absurd (halive'.symm.trans hgone) (by decide)

/-- Once the last reference has gone, no stream is left to call. -/
theorem Inv.alive_of_live (h : s.Inv log) {i : Nat} {stream : WritingStream}
    (hlive : s.liveStream i = some stream) : s.alive = true := by
  by_contra hgone
  have hidle := (h.released (Bool.not_eq_true _ ▸ hgone)).1
  rw [liveStream, Option.filter_eq_some_iff] at hlive
  obtain ⟨hget,hstream⟩ := hlive
  have hdead := List.all_eq_true.mp hidle stream (List.mem_of_getElem? hget)
  simp [hstream] at hdead

theorem Inv.step_pollWrite (h : s.Inv log) (i : Nat) {data : Bytes}
    (hfits : data.length ≤ 65535) :
    (s.step (.pollWrite i data)).1.Inv (log ++ (s.step (.pollWrite i data)).2) := by
  rw [step]
  cases hlive : s.liveStream i with
  | none => exact h.silent
  | some stream =>
    have halive := h.alive_of_live hlive
    simp only [pollWrite]
    cases hclosed : stream.closed || s.closed with
    | true => exact h.silent
    | false =>
      rw [if_neg (by decide)]
      cases hsend : s.send (.frame ⟨cmdPush, stream.streamId, data⟩) with
      | none => exact h.silent
      | some s' =>
        have hopen := (Bool.or_eq_false_iff.mp hclosed).2
        have hsent := h.send hsend hfits (.inr ⟨hopen, halive⟩) nofun
        simp only [List.take_length]
        exact hsent

/-- A stream that ends, at most with a FIN frame. -/
theorem Inv.setStream (h : s.Inv log) (halive : s.alive = true) (i : Nat)
    (stream : WritingStream) : (s.setStream i stream).Inv log :=
  h.same rfl rfl rfl rfl rfl fun hgone => absurd (halive.symm.trans hgone) (by decide)

theorem Inv.finish (h : s.Inv log) (halive : s.alive = true) (streamId : UInt32) (i : Nat)
    (stream : WritingStream) :
    ((s.finishStream streamId).setStream i stream).Inv (log ++ s.taken ⟨cmdFin, streamId, []⟩) := by
  refine (h.control cmdFin streamId (by decide)).setStream ?_ i stream
  cases hsend : s.send (.frame ⟨cmdFin, streamId, []⟩) with
  | none => exact halive
  | some s' =>
    rw [(send_some hsend).2]
    exact halive

theorem Inv.step_shutdown (h : s.Inv log) (i : Nat) :
    (s.step (.shutdown i)).1.Inv (log ++ (s.step (.shutdown i)).2) := by
  rw [step]
  cases hlive : s.liveStream i with
  | none => exact h.silent
  | some stream =>
    simp only
    split
    · exact h.silent
    · exact h.finish (h.alive_of_live hlive) _ i _

theorem Inv.step_dropStream (h : s.Inv log) (i : Nat) :
    (s.step (.dropStream i)).1.Inv (log ++ (s.step (.dropStream i)).2) := by
  rw [step]
  cases hlive : s.liveStream i with
  | none => exact h.silent
  | some stream =>
    have halive := h.alive_of_live hlive
    simp only
    split
    · exact (h.setStream halive i _).silent
    · exact h.finish halive _ i _

/-- The write loop takes an item off the queue and ends. -/
theorem Inv.stop (h : s.Inv log) (hrun : s.running = true) (hqueue : s.queue = item :: rest)
    (hend : s.alive = false ∨ item = .close) :
    { s with running := false, queue := rest }.Inv log := by
  obtain ⟨parsed,written,hgoing⟩ := h.going hrun
  have hnone : NoPush (item :: rest) := by
    obtain hgone | rfl := hend
    · exact hqueue ▸ (h.released hgone).2 hrun
    · have hlast := hgoing.last
      rw [hqueue] at hlast
      exact hlast
  have hrest : NoPush rest := (@noPush_append [item] rest).mp hnone |>.2
  rw [hqueue] at hgoing
  refine ⟨h.closed, nofun, fun _ => ⟨parsed, hgoing.stop hnone hrest⟩, fun hopen hmem => ?_,
    fun hgone => ⟨(h.released hgone).1, nofun⟩⟩
  exact h.unclosed hopen (hqueue ▸ List.mem_cons_of_mem item hmem)

/-- The write loop takes an item off the queue and has written it. -/
theorem Inv.wrote (h : s.Inv log) (hrun : s.running = true) (halive : s.alive = true)
    (hqueue : s.queue = item :: rest) {padding : PaddingState} {wire : Bytes}
    (hwire : ∃ parsed written, Going rest wire (sentFrames log) parsed written) :
    { s with queue := rest, padding := padding, wire := wire }.Inv log := by
  refine ⟨h.closed, fun _ => hwire, fun hstop => ?_, fun hopen hmem => ?_, fun hgone => ?_⟩
  · exact absurd (hrun.symm.trans hstop) (by decide)
  · exact h.unclosed hopen (hqueue ▸ List.mem_cons_of_mem item hmem)
  · exact absurd (halive.symm.trans hgone) (by decide)

/-- The item goes onto the wire, as it is or with WASTE frames behind it. -/
theorem emit_going {wire : Bytes} {taken parsed written : List Frame} {padding : PaddingState}
    (h : Going (item :: rest) wire taken parsed written) (hclose : item ≠ .close)
    (hfits : ∀ len ∈ item.paddedLen, padding.Fits len) :
    (emit padding item).1.2 = .ok () ∧
      ∃ parsed written, Going rest (wire ++ (emit padding item).1.1) taken parsed written := by
  cases item with
  | raw auth => exact ⟨rfl, parsed, written, h.authentication⟩
  | close => exact absurd rfl hclose
  | frames bytes =>
    have hsound : (SessionWrite.frames bytes).Sound := by
      obtain ⟨_,_,heq,_⟩ | ⟨hitems,_⟩ := h.wire
      · cases heq
      · exact hitems _ List.mem_cons_self
    obtain ⟨ws,hws,heq⟩ := emit_sound hsound hfits
    rw [heq]
    exact ⟨rfl, _, _, h.packet nofun nofun hsound.pending hws⟩
  | frame f =>
    have hsound : (SessionWrite.frame f).Sound := by
      obtain ⟨_,_,heq,_⟩ | ⟨hitems,_⟩ := h.wire
      · cases heq
      · exact hitems _ List.mem_cons_self
    obtain ⟨ws,hws,heq⟩ := emit_sound hsound hfits
    rw [heq]
    exact ⟨rfl, _, _, h.packet nofun nofun hsound.pending hws⟩

theorem Inv.writeTurn (h : s.Inv log) {taken : Option Nat}
    (hfits : WriteEvent.Fits s (.writeTurn taken)) : (s.writeTurn taken).Inv log := by
  obtain ⟨rfl,hfits⟩ := hfits
  rw [WritingSession.writeTurn]
  cases hrun : s.running with
  | false => exact h
  | true =>
    cases hqueue : s.queue with
    | nil => exact h
    | cons item rest =>
      simp only
      cases hend : !s.alive || decide (item = .close) with
      | true =>
        rw [if_pos rfl]
        refine h.stop hrun hqueue ((Bool.or_eq_true_iff.mp hend).imp ?_ of_decide_eq_true)
        exact fun hgone => (Bool.not_eq_true' _).mp hgone
      | false =>
        rw [if_neg (by decide)]
        obtain ⟨halive,hclose⟩ := Bool.or_eq_false_iff.mp hend
        have halive := (Bool.not_eq_false' _).mp halive
        obtain ⟨parsed,written,hgoing⟩ := h.going hrun
        rw [hqueue] at hgoing
        obtain ⟨hok,hwire⟩ := emit_going hgoing (of_decide_eq_false hclose)
          (hfits hrun halive item (by rw [hqueue]; rfl))
        rw [hok]
        have hwrote := @Inv.wrote _ _ s log h hrun halive hqueue (emit s.padding item).2 _ hwire
        rw [hrun] at hwrote
        exact hwrote

/-- Every step keeps what was taken on its way. -/
theorem step_inv (s : WritingSession) (log : List WriteLog) (event : WriteEvent) (h : s.Inv log)
    (hfits : event.Fits s) : (s.step event).1.Inv (log ++ (s.step event).2) := by
  cases event with
  | openStream target => exact h.step_openStream target
  | pollWrite i data => exact h.step_pollWrite i hfits
  | shutdown i => exact h.step_shutdown i
  | dropStream i => exact h.step_dropStream i
  | heartRequest streamId =>
    rw [step]
    split
    · exact h.control cmdHeartResponse streamId (by decide)
    · exact h.silent
  | updatePaddingScheme md5 draw raw =>
    rw [step]
    cases PaddingFactory.new md5 draw raw with
    | error e => exact h.silent
    | ok next =>
      have hpadding : { s with padding := { s.padding with padding := next } }.Inv log :=
        h.same rfl rfl rfl rfl rfl fun _ => id
      exact hpadding.silent
  | closeSession =>
    rw [step]
    split
    · exact h.setClosed
    · exact h.silent
  | cleanupIdle =>
    rw [step]
    split
    · exact h.close
    · exact h.silent
  | release =>
    rw [step]
    split
    case isTrue hidle =>
      have hreleased : { s with alive := false }.Inv log :=
        ⟨h.closed, h.going, h.ended, h.unclosed, fun _ => ⟨hidle, fun _ => hfits⟩⟩
      exact hreleased.silent
    case isFalse => exact h.silent
  | writeTurn taken => exact (h.writeTurn hfits).silent

end WritingSession

/-- A new session has its authentication and its settings to send. -/
theorem createSession_inv {md5 : Md5} {draw : Nat → Nat → Nat} {passwordHash : Vector UInt8 32}
    {s : WritingSession} (h : createSession md5 draw passwordHash = .ok s) :
    s.Inv ((pending s.queue).map .sent) := by
  rw [createSession] at h
  cases hnew : PaddingFactory.default md5 draw with
  | error e =>
    rw [hnew] at h
    cases h
  | ok padding =>
    rw [hnew] at h
    simp only at h
    cases hframe : appendFrame [] cmdSettings 0 (settings padding) with
    | error e =>
      rw [hframe] at h
      cases h
    | ok frame =>
      rw [hframe] at h
      cases h
      obtain ⟨hwf,rfl⟩ := @appendFrame_eq_ok ⟨cmdSettings, 0, settings padding⟩ _ _ hframe
      have hsound : (SessionWrite.frames ([] ++ Frame.bytes ⟨cmdSettings, 0, settings padding⟩)).Sound :=
        ⟨[⟨cmdSettings, 0, settings padding⟩], List.forall_mem_singleton.mpr hwf, by simp⟩
      have hauth : (passwordHash.toList ++ be16 30 ++ List.replicate 30 0).length = 64 := by
        simp only [List.length_append, Vector.length_toList, be16_length, List.length_replicate]
      refine ⟨nofun, fun _ => ⟨[], [], ?_, .nil, nofun, trivial, ?_⟩, nofun, ?_, nofun⟩
      · exact (WritingSession.sentFrames_append [] _).symm
      · exact .inl ⟨_, _, rfl, hauth, List.forall_mem_singleton.mpr hsound, rfl, rfl⟩
      · intro _ hmem
        obtain hmem | hmem := List.mem_cons.mp hmem
        · cases hmem
        · cases List.mem_singleton.mp hmem

def emptySession : WritingSession := ⟨[], false, true, true, 1, ⟨⟨[], 0, []⟩, 1⟩, [], []⟩

/-- A session under a generator that draws the least size, digests left at zero. -/
def sampleSession : WritingSession :=
  (createSession (fun _ => Vector.replicate 16 0) (fun _ _ => 0)
    (Vector.replicate 32 0)).toOption.getD emptySession

theorem createSession_sample :
    createSession (fun _ => Vector.replicate 16 0) (fun _ _ => 0) (Vector.replicate 32 0) =
      .ok sampleSession := by
  have hget {e : Except String WritingSession} (h : e.toOption.isSome = true) :
      e = .ok (e.toOption.getD emptySession) := by
    cases e with
    | error _ => cases h
    | ok _ => rfl
  exact hget (by decide +kernel)

/-- One stream, and the queue written out. -/
def sampleEvents : List WriteEvent :=
  [.openStream ⟨"a", 80⟩, .writeTurn none, .writeTurn none, .writeTurn none]

theorem sampleEvents_fit : Meets WritingSession.step (fun s event => event.Fits s) sampleSession
    (sampleEvents ++ [.pollWrite 0 [1, 2, 3], .writeTurn none]) := by
  decide +kernel

namespace WritingSession

/-- A buffer that is larger than a frame can be is accepted, and closes the session when its
turn comes. -/
theorem large_write_closes {s : WritingSession} {i : Nat} {stream : WritingStream} {data : Bytes}
    (hqueue : s.queue = []) (hrunning : s.running = true) (halive : s.alive = true)
    (hclosed : s.closed = false) (hlive : s.liveStream i = some stream)
    (hstream : stream.closed = false) (hlarge : 65535 < data.length) :
    (run step s [.pollWrite i data, .writeTurn none]).1.closed = true ∧
      (run step s [.pollWrite i data, .writeTurn none]).2 =
        [.sent ⟨cmdPush, stream.streamId, data⟩] := by
  have hsend : s.send (.frame ⟨cmdPush, stream.streamId, data⟩) =
      some { s with queue := [.frame ⟨cmdPush, stream.streamId, data⟩] } := by
    rw [send, if_pos hrunning, hqueue]
    rfl
  have hwrite : s.step (.pollWrite i data) =
      ({ s with queue := [.frame ⟨cmdPush, stream.streamId, data⟩] },
        [.sent ⟨cmdPush, stream.streamId, data⟩]) := by
    simp only [step, hlive, pollWrite, hstream, hclosed, Bool.or_self, hsend]
    simp
  have hframe : appendFrame [] cmdPush stream.streamId data = .error "AnyTLS frame is too large" :=
    if_pos hlarge
  have hturn : ({ s with queue := [.frame ⟨cmdPush, stream.streamId, data⟩] }.writeTurn
      none).closed = true := by
    simp [writeTurn, hrunning, halive, emit, hframe]
  rw [run, run, run, hwrite]
  exact ⟨hturn, rfl⟩

end WritingSession

end AtlasKernel.AnyTls
