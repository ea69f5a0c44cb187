import AtlasKernel.Shadowsocks.TlsTicketFormat

/-! The stream of the ShadowsocksR `tls1.2_ticket` obfuscation. A pending write may be
finished by a read, by a flush or by the next write.
Source: `shadowsocks/ssr/obfs/tls_ticket.rs`. -/
namespace AtlasKernel.Shadowsocks
open AtlasKernel.Lib

/-- The inner stream is its read half `source` and its write half `sink`. -/
structure SsrTlsTicketStream where
  source : Source UInt8
  sink : Sink UInt8
  host : String
  key : Bytes
  clientId : ClientId
  handshakeStatus : UInt8
  readRaw : Bytes
  readBuffer : Bytes
  sendBuffer : Bytes
  pendingWrite : Option PendingWrite
deriving DecidableEq, Repr

def ssrTlsTicketMaxPendingBytes : Nat := 1024 * 1024

namespace SsrTlsTicketStream

def new (source : Source UInt8) (sink : Sink UInt8) (host : String) (key : Bytes)
    (clientId : ClientId) : SsrTlsTicketStream :=
  ⟨source, sink, host, key, clientId, 0, [], [], [], none⟩

def queueFinish (env : TicketEnv) (s : SsrTlsTicketStream) : SsrTlsTicketStream :=
  { s with
    sendBuffer := []
    handshakeStatus := 8
    pendingWrite := some (.new (ssrTlsTicketFinish env s.key s.clientId s.sendBuffer) 0) }

/-- `if let Some(mut pending) = self.pending_write.take()`, in every operation the same. -/
def writePending (s : SsrTlsTicketStream) :
    Option (Poll (IoResult Nat)) × SsrTlsTicketStream :=
  match s.pendingWrite with
  | none => (none, s)
  | some pending =>
    let r := pending.resume s.sink
    (some r.1, { s with pendingWrite := r.2.1, sink := r.2.2 })

/-! ## Reading -/

/-- The loop of `poll_read` ends with an answer, or with a handshake to finish. -/
inductive Received where
  | answer (r : Poll (IoResult Bytes))
  | verified
deriving DecidableEq, Repr

/-- What the bytes read so far already answer, at the head of the loop. -/
def serveBuffered (env : TicketEnv) (s : SsrTlsTicketStream) (room : Nat) :
    Option Received × SsrTlsTicketStream :=
  if s.handshakeStatus = 8 then
    match ssrTlsTicketDrainRecords s.readRaw s.readBuffer false with
    | (.error err, raw, output) =>
      (some (.answer (.ready (.error err))), { s with readRaw := raw, readBuffer := output })
    | (.ok drained, raw, output) =>
      match if drained then drainBuffer output room else none with
      | some (out, rest) =>
        (some (.answer (.ready (.ok out))), { s with readRaw := raw, readBuffer := rest })
      | none => (none, { s with readRaw := raw, readBuffer := output })
  else if ssrTlsTicketHasServerHandshake s.readRaw then
    match ssrTlsTicketVerifyServerHandshake env s.readRaw s.key s.clientId with
    | .error err => (some (.answer (.ready (.error err))), s)
    | .ok () => (some .verified, { s with readRaw := [] })
  else (none, s)

theorem serveBuffered_source (env : TicketEnv) (s : SsrTlsTicketStream) (room : Nat) :
    (s.serveBuffered env room).2.source = s.source := by
  unfold serveBuffered
  split
  · split
    · rfl
    · split <;> rfl
  · split
    · split <;> rfl
    · rfl

def receiveLoop (env : TicketEnv) (s : SsrTlsTicketStream) (room : Nat) :
    Received × SsrTlsTicketStream :=
  match _hs : s.serveBuffered env room with
  | (some r, s') => (r, s')
  | (none, s') =>
    match _h : Lib.pollRead 8192 s'.source with
    | (.pending, source) => (.answer .pending, { s' with source := source })
    | (.ready (.error err), source) => (.answer (.ready (.error err)), { s' with source := source })
    | (.ready (.ok filled), source) =>
      if _hp : filled = [] then (.answer (.ready (.ok [])), { s' with source := source })
      else receiveLoop env { s' with source := source, readRaw := s'.readRaw ++ filled } room
termination_by sourceSize s.source
decreasing_by
  have hsame := serveBuffered_source env s room
  rw [_hs] at hsame
  rw [← hsame]
  exact sourceSize_pollRead _h _hp

/-- `poll_read` behind the pending write. -/
def readRest (env : TicketEnv) (s : SsrTlsTicketStream) (room : Nat) :
    Poll (IoResult Bytes) × SsrTlsTicketStream :=
  match drainBuffer s.readBuffer room with
  | some (out, rest) => (.ready (.ok out), { s with readBuffer := rest })
  | none =>
    match s.receiveLoop env room with
    | (.answer r, s) => (r, s)
    | (.verified, s) =>
      match (s.queueFinish env).writePending with
      | (some (.ready (.error err)), s) => (.ready (.error err), s)
      | (_, s) => (.pending, s)

def pollRead (env : TicketEnv) (s : SsrTlsTicketStream) (room : Nat) :
    Poll (IoResult Bytes) × SsrTlsTicketStream :=
  match s.writePending with
  | (some .pending, s) => (.pending, s)
  | (some (.ready (.error err)), s) => (.ready (.error err), s)
  -- `Poll::Ready(Ok(_)) => {}`: the length of the finished write is dropped
  | (some (.ready (.ok _)), s) => s.readRest env room
  | (none, s) => s.readRest env room

/-! ## Writing -/

/-- The end of `poll_write`, where the new pending write is tried. -/
def writeNew (s : SsrTlsTicketStream) (buf : Bytes) :
    Poll (IoResult Nat) × SsrTlsTicketStream :=
  match s.writePending with
  | (some r, s) => (r, s)
  | (none, s) => (.ready (.ok buf.length), s)

/-- `poll_write` behind the pending write. -/
def writeRest (env : TicketEnv) (draw : Nat → UInt16) (s : SsrTlsTicketStream) (buf : Bytes) :
    Poll (IoResult Nat) × SsrTlsTicketStream :=
  if s.handshakeStatus = 8 then
    writeNew { s with
      pendingWrite := some (.new (ssrTlsTicketRecords draw true buf) buf.length) } buf
  else if buf ≠ [] ∧ ssrTlsTicketMaxPendingBytes < s.sendBuffer.length + buf.length then
    (.ready (.error ⟨.invalidData,
      "SSR TLS ticket pending payload is too large before handshake"⟩), s)
  else
    let s := if buf = [] then s
      else { s with sendBuffer := s.sendBuffer ++ ssrTlsTicketRecords draw true buf }
    if s.handshakeStatus = 0 then
      writeNew { s with
        handshakeStatus := 1
        pendingWrite := some (.new (ssrTlsTicketClientHello env s.host s.key s.clientId) buf.length)
        } buf
    else (.ready (.ok buf.length), s)

def pollWrite (env : TicketEnv) (draw : Nat → UInt16) (s : SsrTlsTicketStream) (buf : Bytes) :
    Poll (IoResult Nat) × SsrTlsTicketStream :=
  match s.writePending with
  | (some .pending, s) => (.pending, s)
  | (some (.ready (.error err)), s) => (.ready (.error err), s)
  | (some (.ready (.ok originalLen)), s) =>
    if 0 < originalLen then (.ready (.ok originalLen), s) else s.writeRest env draw buf
  | (none, s) => s.writeRest env draw buf

/-- `inner` is what the inner stream's own `poll_flush` answers. -/
def pollFlush (s : SsrTlsTicketStream) (inner : Poll (IoResult Unit)) :
    Poll (IoResult Unit) × SsrTlsTicketStream :=
  match s.writePending with
  | (some .pending, s) => (.pending, s)
  | (some (.ready (.error err)), s) => (.ready (.error err), s)
  | (some (.ready (.ok _)), s) => (inner, s)
  | (none, s) => (inner, s)

/-! ## What reading leaves alone -/

/-- The two states differ in what has been downloaded only. -/
def KeepsUpload (s s' : SsrTlsTicketStream) : Prop :=
  ∃ source raw buffer, s' = { s with source := source, readRaw := raw, readBuffer := buffer }

theorem KeepsUpload.trans {s s' s'' : SsrTlsTicketStream} (h : KeepsUpload s s')
    (h' : KeepsUpload s' s'') : KeepsUpload s s'' := by
  obtain ⟨_,_,_,rfl⟩ := h
  obtain ⟨source,raw,buffer,rfl⟩ := h'
  exact ⟨source,raw,buffer,rfl⟩

theorem serveBuffered_keeps (env : TicketEnv) (s : SsrTlsTicketStream) (room : Nat) :
    KeepsUpload s (s.serveBuffered env room).2 ∧
    ((s.serveBuffered env room).1 = some .verified → s.handshakeStatus ≠ 8) := by
  unfold serveBuffered
  split
  · split
    · exact ⟨⟨_,_,_,rfl⟩,fun h => by cases h⟩
    · split
      · exact ⟨⟨_,_,_,rfl⟩,fun h => by cases h⟩
      · exact ⟨⟨_,_,_,rfl⟩,fun h => by cases h⟩
  · rename_i h8
    split
    · split
      · exact ⟨⟨_,_,_,rfl⟩,fun h => by cases h⟩
      · exact ⟨⟨_,_,_,rfl⟩,fun _ => h8⟩
    · exact ⟨⟨_,_,_,rfl⟩,fun h => by cases h⟩

theorem receiveLoop_keeps (env : TicketEnv) (s : SsrTlsTicketStream) (room : Nat) :
    KeepsUpload s (s.receiveLoop env room).2 ∧
    ((s.receiveLoop env room).1 = .verified → s.handshakeStatus ≠ 8) := by
  fun_induction receiveLoop env s room with
  | case1 s r s' hs =>
    have h := serveBuffered_keeps env s room
    rw [hs] at h
    exact ⟨h.1,fun hv => h.2 (congrArg some hv)⟩
  | case2 s s' hs source hr | case4 s s' hs source hr =>
    have h := serveBuffered_keeps env s room
    rw [hs] at h
    exact ⟨h.1.trans ⟨_,_,_,rfl⟩,nofun⟩
  | case3 s s' hs e source hr =>
    have h := serveBuffered_keeps env s room
    rw [hs] at h
    exact ⟨h.1.trans ⟨_,_,_,rfl⟩,nofun⟩
  | case5 s s' hs p source hr hp ih =>
    obtain ⟨hk,_⟩ := serveBuffered_keeps env s room
    rw [hs] at hk
    obtain ⟨_,_,_,rfl⟩ := hk
    exact ⟨.trans ⟨_,_,_,rfl⟩ ih.1,ih.2⟩

/-! ## What the inner stream has received -/

/-- The bytes of the pending write that are still to be sent. -/
def rest (s : SsrTlsTicketStream) : Bytes := (s.pendingWrite.map PendingWrite.rest).getD []

section
variable (env : TicketEnv) (host : String) (key : Bytes) (clientId : ClientId)

/-- How far the upload has come, and the payload that the records made so far carry. A
server handshake may be there before the client hello: `pre` is empty then. -/
inductive Stage (s : SsrTlsTicketStream) (payload : Bytes) : Prop where
  | start : s.handshakeStatus = 0 → s.pendingWrite = none → s.sink.sent = [] →
      s.sendBuffer = [] → payload = [] → Stage s payload
  | hello : s.handshakeStatus = 1 →
      s.sink.sent ++ s.rest = ssrTlsTicketClientHello env host key clientId →
      AppRecords s.sendBuffer payload → Stage s payload
  | data (pre records : Bytes) : s.handshakeStatus = 8 →
      (pre = [] ∨ pre = ssrTlsTicketClientHello env host key clientId) →
      s.sink.sent ++ s.rest = pre ++ ssrTlsTicketFinish env key clientId [] ++ records →
      AppRecords records payload → Stage s payload

structure Uploading (s : SsrTlsTicketStream) (payload : Bytes) : Prop where
  host_eq : s.host = host
  key_eq : s.key = key
  clientId_eq : s.clientId = clientId
  willing : s.sink.Willing
  stage : Stage env host key clientId s payload

end

variable {env : TicketEnv} {host : String} {key : Bytes} {clientId : ClientId}

theorem Uploading.keeps {s s' : SsrTlsTicketStream} {payload : Bytes}
    (h : Uploading env host key clientId s payload) (hk : KeepsUpload s s') :
    Uploading env host key clientId s' payload := by
  obtain ⟨_,_,_,rfl⟩ := hk
  obtain ⟨hh,hkey,hid,hw,hst⟩ := h
  refine ⟨hh,hkey,hid,hw,?_⟩
  cases hst with
  | start h0 hp hsent hbuf hpay => exact .start h0 hp hsent hbuf hpay
  | hello h1 hcat hrec => exact .hello h1 hcat hrec
  | data pre records h8 hpre hcat hrec => exact .data pre records h8 hpre hcat hrec

/-- Moving bytes from the pending write to the sink keeps the stage. -/
theorem Uploading.move {s : SsrTlsTicketStream} {payload : Bytes} {pending : Option PendingWrite}
    {sink : Sink UInt8} (h : Uploading env host key clientId s payload)
    (hp : s.pendingWrite ≠ none) (hw : sink.Willing)
    (hcat : sink.sent ++ (pending.map PendingWrite.rest).getD [] = s.sink.sent ++ s.rest) :
    Uploading env host key clientId { s with pendingWrite := pending, sink := sink } payload := by
  obtain ⟨hh,hkey,hid,_,hst⟩ := h
  refine ⟨hh,hkey,hid,hw,?_⟩
  cases hst with
  | start _ hn => exact absurd hn hp
  | hello h1 hc hrec => exact .hello h1 (hcat.trans hc) hrec
  | data pre records h8 hpre hc hrec => exact .data pre records h8 hpre (hcat.trans hc) hrec

/-- A pending write is finished or goes on; it is finished exactly when the next burst
of the inner stream covers it. -/
theorem writePending_cases {s : SsrTlsTicketStream} {payload : Bytes} {p : PendingWrite}
    (h : Uploading env host key clientId s payload) (hp : s.pendingWrite = some p) :
    (∃ s', s.writePending = (some (.ready (.ok p.originalLen)), s') ∧ s'.pendingWrite = none ∧
      Uploading env host key clientId s' payload ∧ p.rest.length ≤ s.sink.burst) ∨
    (∃ s' p', s.writePending = (some .pending, s') ∧ s'.pendingWrite = some p' ∧
      p'.originalLen = p.originalLen ∧ Uploading env host key clientId s' payload) := by
  have hne : s.pendingWrite ≠ none := by rw [hp]; nofun
  have hrest : s.rest = p.rest := by rw [rest, hp]; rfl
  unfold writePending
  simp only [hp]
  obtain ⟨sink,hr,hsent,hw,hb⟩ | ⟨p',sink,hr,hlen,hsent,hw,_⟩ := resume_willing p h.willing
  · exact .inl ⟨{ s with pendingWrite := none, sink := sink },by rw [hr],rfl,
      h.move hne hw (by simpa [hrest] using hsent),hb⟩
  · exact .inr ⟨{ s with pendingWrite := some p', sink := sink },p',by rw [hr],rfl,hlen,
      h.move hne hw (by simpa [hrest] using hsent)⟩

theorem writePending_none {s : SsrTlsTicketStream} (hp : s.pendingWrite = none) :
    s.writePending = (none, s) := by
  simp only [writePending, hp]

theorem rest_none {s : SsrTlsTicketStream} (hp : s.pendingWrite = none) : s.rest = [] := by
  rw [rest, hp]
  rfl

/-- The finish packet takes the buffered records with it. -/
theorem Uploading.queueFinish {s : SsrTlsTicketStream} {payload : Bytes}
    (h : Uploading env host key clientId s payload) (hp : s.pendingWrite = none)
    (h8 : s.handshakeStatus ≠ 8) :
    Uploading env host key clientId (s.queueFinish env) payload := by
  obtain ⟨hh,hkey,hid,hw,hst⟩ := h
  refine ⟨hh,hkey,hid,hw,?_⟩
  have hrest : (s.queueFinish env).rest = ssrTlsTicketFinish env key clientId [] ++ s.sendBuffer := by
    rw [← ssrTlsTicketFinish_buffered, ← hkey, ← hid]
    rfl
  cases hst with
  | start h0 _ hsent hbuf hpay =>
    refine .data [] [] rfl (.inl rfl) ?_ (hpay ▸ .nil)
    rw [hrest, hbuf]
    simp [SsrTlsTicketStream.queueFinish, hsent]
  | hello h1 hcat hrec =>
    refine .data _ s.sendBuffer rfl (.inr rfl) ?_ hrec
    rw [rest_none hp, List.append_nil] at hcat
    rw [hrest, List.append_assoc, ← hcat]
    rfl
  | data pre records h8' => exact absurd h8' h8

/-- Behind a finished write, a read leaves the payload as it is; what it may leave
pending is a finish packet, which stands for no caller's bytes. -/
theorem readRest_uploading {s : SsrTlsTicketStream} {payload : Bytes} (room : Nat)
    (h : Uploading env host key clientId s payload) (hp : s.pendingWrite = none) :
    Uploading env host key clientId (s.readRest env room).2 payload ∧
    ∀ p, (s.readRest env room).2.pendingWrite = some p → p.originalLen = 0 := by
  unfold readRest
  cases hd : drainBuffer s.readBuffer room with
  | some r =>
    obtain ⟨out,rest⟩ := r
    refine ⟨h.keeps ⟨_,_,_,rfl⟩,?_⟩
    intro p hp'
    rw [show _ = none from hp] at hp'
    cases hp'
  | none =>
    obtain ⟨hkeep,hverified⟩ := receiveLoop_keeps env s room
    cases hr : s.receiveLoop env room with
    | mk r s' =>
      rw [hr] at hkeep hverified
      have hp' : s'.pendingWrite = none := by
        obtain ⟨_,_,_,rfl⟩ := hkeep
        exact hp
      cases r with
      | answer r =>
        refine ⟨h.keeps hkeep,?_⟩
        intro p hs
        rw [show _ = none from hp'] at hs
        cases hs
      | verified =>
        have h8 : s'.handshakeStatus ≠ 8 := by
          obtain ⟨_,_,_,rfl⟩ := hkeep
          exact hverified rfl
        have hq := (h.keeps hkeep).queueFinish hp' h8
        obtain ⟨s'',hw,hnone,hup,_⟩ | ⟨s'',p',hw,hsome,hlen,hup⟩ := writePending_cases hq rfl
        · simp only [hw]
          exact ⟨hup,fun p hs => by rw [hnone] at hs; cases hs⟩
        · simp only [hw]
          exact ⟨hup,fun p hs => by rw [hsome] at hs; cases hs; exact hlen⟩

/-- How a write that was not refused ends: its payload is made into records, once, and
either all bytes are out or the rest of them stands for the caller's buffer. -/
def Written (env : TicketEnv) (host : String) (key : Bytes) (clientId : ClientId)
    (payload buf : Bytes) (r : Poll (IoResult Nat) × SsrTlsTicketStream) : Prop :=
  Uploading env host key clientId r.2 (payload ++ buf) ∧
  ((r.1 = .ready (.ok buf.length) ∧ r.2.pendingWrite = none) ∨
    (r.1 = .pending ∧ ∃ p, r.2.pendingWrite = some p ∧ p.originalLen = buf.length))

theorem writeNew_written {s : SsrTlsTicketStream} {payload buf : Bytes} {p : PendingWrite}
    (h : Uploading env host key clientId s (payload ++ buf)) (hp : s.pendingWrite = some p)
    (hlen : p.originalLen = buf.length) :
    Written env host key clientId payload buf (s.writeNew buf) := by
  unfold writeNew
  obtain ⟨s',hw,hnone,hup,_⟩ | ⟨s',p',hw,hsome,hlen',hup⟩ := writePending_cases h hp
  · rw [hw, hlen]
    exact ⟨hup,.inl ⟨rfl,hnone⟩⟩
  · rw [hw]
    exact ⟨hup,.inr ⟨rfl,p',hsome,hlen'.trans hlen⟩⟩

/-- With the handshake done the new records follow the old ones. -/
theorem Uploading.push_records {s : SsrTlsTicketStream} {payload : Bytes}
    (h : Uploading env host key clientId s payload) (hp : s.pendingWrite = none)
    (h8 : s.handshakeStatus = 8) (draw : Nat → UInt16) (buf : Bytes) :
    Uploading env host key clientId { s with
      pendingWrite := some (.new (ssrTlsTicketRecords draw true buf) buf.length) }
      (payload ++ buf) := by
  obtain ⟨hh,hkey,hid,hw,hst⟩ := h
  refine ⟨hh,hkey,hid,hw,?_⟩
  cases hst with
  | start h0 => rw [h0] at h8; cases h8
  | hello h1 => rw [h1] at h8; cases h8
  | data pre records _ hpre hcat hrec =>
    refine .data pre (records ++ ssrTlsTicketRecords draw true buf) h8 hpre ?_
      (hrec.append (ssrTlsTicketRecords_carry draw true buf))
    rw [rest_none hp, List.append_nil] at hcat
    rw [← List.append_assoc, ← hcat]
    rfl

/-- Before that they wait in the send buffer. -/
theorem Uploading.push_buffer {s : SsrTlsTicketStream} {payload : Bytes}
    (h : Uploading env host key clientId s payload) (h1 : s.handshakeStatus = 1)
    (draw : Nat → UInt16) (buf : Bytes) :
    Uploading env host key clientId
      { s with sendBuffer := s.sendBuffer ++ ssrTlsTicketRecords draw true buf }
      (payload ++ buf) := by
  obtain ⟨hh,hkey,hid,hw,hst⟩ := h
  refine ⟨hh,hkey,hid,hw,?_⟩
  cases hst with
  | start h0 => rw [h0] at h1; cases h1
  | hello _ hcat hrec => exact .hello h1 hcat (hrec.append (ssrTlsTicketRecords_carry draw true buf))
  | data _ _ h8 => rw [h8] at h1; cases h1

/-- The first write makes the client hello. -/
theorem Uploading.push_hello {s : SsrTlsTicketStream} {payload : Bytes}
    (h : Uploading env host key clientId s payload) (h0 : s.handshakeStatus = 0)
    (draw : Nat → UInt16) (buf : Bytes) :
    Uploading env host key clientId { s with
      sendBuffer := s.sendBuffer ++ ssrTlsTicketRecords draw true buf
      handshakeStatus := 1
      pendingWrite := some (.new (ssrTlsTicketClientHello env s.host s.key s.clientId) buf.length)
      } (payload ++ buf) := by
  obtain ⟨hh,hkey,hid,hw,hst⟩ := h
  refine ⟨hh,hkey,hid,hw,?_⟩
  cases hst with
  | start _ _ hsent hbuf hpay =>
    refine .hello rfl ?_ ?_
    · rw [hsent, ← hh, ← hkey, ← hid]
      rfl
    · rw [hbuf, hpay]
      exact ssrTlsTicketRecords_carry draw true buf
  | hello h1 => rw [h1] at h0; cases h0
  | data _ _ h8 => rw [h8] at h0; cases h0

/-- Behind a finished write, a write refuses the buffer and changes nothing, or makes
its records. -/
theorem writeRest_uploading {s : SsrTlsTicketStream} {payload : Bytes} (draw : Nat → UInt16)
    (buf : Bytes) (h : Uploading env host key clientId s payload) (hp : s.pendingWrite = none) :
    (∃ e, s.writeRest env draw buf = (.ready (.error e), s)) ∨
    Written env host key clientId payload buf (s.writeRest env draw buf) := by
  unfold writeRest
  by_cases h8 : s.handshakeStatus = 8
  · rw [if_pos h8]
    exact .inr (writeNew_written (h.push_records hp h8 draw buf) rfl rfl)
  · rw [if_neg h8]
    by_cases hbig : buf ≠ [] ∧ ssrTlsTicketMaxPendingBytes < s.sendBuffer.length + buf.length
    · rw [if_pos hbig]
      exact .inl ⟨_,rfl⟩
    · rw [if_neg hbig]
      right
      have hbuffer : (if buf = [] then s
          else { s with sendBuffer := s.sendBuffer ++ ssrTlsTicketRecords draw true buf }) =
          { s with sendBuffer := s.sendBuffer ++ ssrTlsTicketRecords draw true buf } := by
        by_cases hb : buf = []
        · simp [hb]
        · rw [if_neg hb]
      rw [hbuffer]
      by_cases h0 : s.handshakeStatus = 0
      · simp only [if_pos h0]
        exact writeNew_written (h.push_hello h0 draw buf) rfl rfl
      · simp only [if_neg h0]
        have h1 : s.handshakeStatus = 1 := by
          cases h.stage with
          | start h0' => exact absurd h0' h0
          | hello h1 => exact h1
          | data _ _ h8' => exact absurd h8' h8
        exact ⟨h.push_buffer h1 draw buf,.inl ⟨rfl,hp⟩⟩

/-! ## Runs -/

abbrev Session := WriteSession SsrTlsTicketStream UInt8

def readStep (env : TicketEnv) (room : Nat) (s : Session) : Session :=
  { s with stream := (s.stream.pollRead env room).2 }

def flushStep (inner : Poll (IoResult Unit)) (s : Session) : Session :=
  { s with stream := (s.stream.pollFlush inner).2 }

/-- The sessions that any interleaving of the three operations reaches from `st₀`. The
condition restricts the reads and flushes that are made. -/
inductive Runs (env : TicketEnv) (Cond : SsrTlsTicketStream → Prop) (st₀ : SsrTlsTicketStream) :
    Session → Prop where
  | start : Runs env Cond st₀ (.start st₀)
  | write {s : Session} (draw : Nat → UInt16) (buf : Bytes) : Runs env Cond st₀ s →
      s.caller.mayWrite buf → Runs env Cond st₀ (s.write (pollWrite env draw) buf)
  | read {s : Session} (room : Nat) : Runs env Cond st₀ s → Cond s.stream →
      Runs env Cond st₀ (readStep env room s)
  | flush {s : Session} (inner : Poll (IoResult Unit)) : Runs env Cond st₀ s → Cond s.stream →
      Runs env Cond st₀ (flushStep inner s)

/-- The call does not finish a pending write that stands for a caller's bytes. -/
def LeavesWrite (s : SsrTlsTicketStream) : Prop :=
  ∀ p ∈ s.pendingWrite, p.originalLen = 0 ∨ s.sink.burst < p.rest.length

instance (s : SsrTlsTicketStream) : Decidable (LeavesWrite s) :=
  inferInstanceAs (Decidable (∀ p ∈ s.pendingWrite, _ ∨ _))

/-- Once the handshake is done the inner stream holds the client hello (unless the server
spoke first), the finish packet and records that carry the accepted writes in order, and
at most the one in flight besides; when nothing is pending it holds exactly these. Before
that it holds nothing but the client hello. -/
def UploadExact (env : TicketEnv) (host : String) (key : Bytes) (clientId : ClientId)
    (s : Session) : Prop :=
  if s.stream.handshakeStatus = 8 then
    ∃ pre records tail, (pre = [] ∨ pre = ssrTlsTicketClientHello env host key clientId) ∧
      s.stream.sink.sent <+: pre ++ ssrTlsTicketFinish env key clientId [] ++ records ∧
      AppRecords records (s.accepted.flatten ++ tail) ∧ (tail = [] ∨ tail = s.caller.inFlight) ∧
      (s.stream.pendingWrite = none → tail = [] ∧
        s.stream.sink.sent = pre ++ ssrTlsTicketFinish env key clientId [] ++ records)
  else s.stream.sink.sent <+: ssrTlsTicketClientHello env host key clientId

/-- The bytes the pending write stands for are those of the caller that retries them. -/
def Owed (s : Session) (tail : Bytes) : Prop :=
  match s.stream.pendingWrite with
  | none => tail = []
  | some p => (p.originalLen = 0 ∧ tail = []) ∨
      (s.caller = .retrying tail ∧ p.originalLen = tail.length)

def Inv (env : TicketEnv) (host : String) (key : Bytes) (clientId : ClientId) (s : Session) :
    Prop :=
  ∃ tail, Owed s tail ∧ Uploading env host key clientId s.stream (s.accepted.flatten ++ tail)

theorem owed_none {s : Session} {tail : Bytes} (h : Owed s tail)
    (hp : s.stream.pendingWrite = none) : tail = [] := by
  simpa only [Owed, hp] using h

theorem owed_some {s : Session} {tail : Bytes} {p : PendingWrite} (h : Owed s tail)
    (hp : s.stream.pendingWrite = some p) : (p.originalLen = 0 ∧ tail = []) ∨
      (s.caller = .retrying tail ∧ p.originalLen = tail.length) := by
  simpa only [Owed, hp] using h

theorem owed_zero {s : Session} {tail : Bytes} {p : PendingWrite} (h : Owed s tail)
    (hp : s.stream.pendingWrite = some p) (hlen : p.originalLen = 0) : tail = [] := by
  obtain ⟨_,ht⟩ | ⟨_,ht⟩ := owed_some h hp
  · exact ht
  · exact List.length_eq_zero_iff.mp (ht.symm.trans hlen)

/-- A stream with nothing of a caller pending owes nothing. -/
theorem inv_idle {st : SsrTlsTicketStream} {accepted : List Bytes} {caller : Caller UInt8}
    (h : Uploading env host key clientId st accepted.flatten)
    (hp : ∀ p, st.pendingWrite = some p → p.originalLen = 0) :
    Inv env host key clientId ⟨st,accepted,caller⟩ := by
  refine ⟨[],?_,by simpa using h⟩
  cases hpw : st.pendingWrite with
  | none => simp only [Owed, hpw]
  | some p => simpa only [Owed, hpw] using .inl ⟨hp p hpw,trivial⟩

theorem settle_written {s : Session} {buf : Bytes} {r : Poll (IoResult Nat) × SsrTlsTicketStream}
    (h : Written env host key clientId s.accepted.flatten buf r) :
    Inv env host key clientId (s.settle buf r) := by
  obtain ⟨answer,st⟩ := r
  obtain ⟨hup,⟨hr,hp⟩ | ⟨hr,p,hp,hlen⟩⟩ := h
  · simp only at hr hp hup
    subst hr
    refine inv_idle ?_ fun p hs => by rw [hp] at hs; cases hs
    simpa using hup
  · simp only at hr hp hup
    subst hr
    refine ⟨buf,?_,hup⟩
    simpa only [Owed, WriteSession.settle, hp] using .inr ⟨trivial,hlen⟩

/-- Behind a finished write that owes nothing, a write settles. -/
theorem settle_writeRest {s : Session} {st : SsrTlsTicketStream} (draw : Nat → UInt16)
    (buf : Bytes) (h : Uploading env host key clientId st s.accepted.flatten)
    (hp : st.pendingWrite = none) :
    Inv env host key clientId (s.settle buf (st.writeRest env draw buf)) := by
  obtain ⟨e,hr⟩ | hw := writeRest_uploading draw buf h hp
  · rw [hr]
    exact inv_idle h fun p hs => by rw [hp] at hs; cases hs
  · exact settle_written hw

theorem write_inv {s : Session} (draw : Nat → UInt16) (buf : Bytes)
    (h : Inv env host key clientId s) (hm : s.caller.mayWrite buf) :
    Inv env host key clientId (s.write (pollWrite env draw) buf) := by
  obtain ⟨tail,howed,hup⟩ := h
  unfold WriteSession.write pollWrite
  cases hp : s.stream.pendingWrite with
  | none =>
    obtain rfl := owed_none howed hp
    rw [writePending_none hp]
    exact settle_writeRest draw buf (by simpa using hup) hp
  | some p =>
    obtain ⟨st,hw,hnone,hup',_⟩ | ⟨st,p',hw,hsome,hlen,hup'⟩ := writePending_cases hup hp
    · simp only [hw]
      by_cases hpos : 0 < p.originalLen
      · -- the finished write is the caller's own: its length is acknowledged
        rw [if_pos hpos]
        obtain ⟨h0,_⟩ | ⟨hc,hlen⟩ := owed_some howed hp
        · omega
        · rw [hc] at hm
          obtain rfl : buf = tail := hm
          refine inv_idle ?_ fun p hs => by rw [hnone] at hs; cases hs
          simpa [hlen] using hup'
      · rw [if_neg hpos]
        obtain rfl := owed_zero howed hp (by omega)
        exact settle_writeRest draw buf (by simpa using hup') hnone
    · simp only [hw]
      refine ⟨tail,?_,hup'⟩
      simp only [Owed, WriteSession.settle, hsome, hlen]
      obtain hidle | ⟨hc,hl⟩ := owed_some howed hp
      · exact .inl hidle
      · rw [hc] at hm
        obtain rfl : buf = tail := hm
        exact .inr ⟨rfl,hl⟩

/-- Both `poll_read` and `poll_flush` begin with the pending write: either it goes on
pending, or they go on without it and owe nothing. -/
theorem writePending_inv {s : Session} (h : Inv env host key clientId s)
    (hc : LeavesWrite s.stream) :
    (∃ st, s.stream.writePending = (some .pending, st) ∧
      Inv env host key clientId { s with stream := st }) ∨
    (∃ r st, s.stream.writePending = (r, st) ∧ (r = none ∨ ∃ n, r = some (.ready (.ok n))) ∧
      st.pendingWrite = none ∧ Uploading env host key clientId st s.accepted.flatten) := by
  obtain ⟨tail,howed,hup⟩ := h
  cases hp : s.stream.pendingWrite with
  | none =>
    obtain rfl := owed_none howed hp
    exact .inr ⟨none,s.stream,writePending_none hp,.inl rfl,hp,by simpa using hup⟩
  | some p =>
    obtain ⟨st,hw,hnone,hup',hb⟩ | ⟨st,p',hw,hsome,hlen,hup'⟩ := writePending_cases hup hp
    · have h0 : p.originalLen = 0 := (hc p hp).resolve_right (Nat.not_lt.mpr hb)
      obtain rfl := owed_zero howed hp h0
      exact .inr ⟨_,st,hw,.inr ⟨_,rfl⟩,hnone,by simpa using hup'⟩
    · refine .inl ⟨st,hw,tail,?_,hup'⟩
      simpa only [Owed, hsome, hlen] using owed_some howed hp

theorem read_inv {s : Session} (room : Nat) (h : Inv env host key clientId s)
    (hc : LeavesWrite s.stream) :
    Inv env host key clientId (readStep env room s) := by
  unfold readStep pollRead
  obtain ⟨st,hw,hinv⟩ | ⟨r,st,hw,hr,hnone,hup⟩ := writePending_inv h hc
  · simpa only [hw] using hinv
  · obtain ⟨hup',hp⟩ := readRest_uploading room hup hnone
    obtain rfl | ⟨n,rfl⟩ := hr
    · simpa only [hw] using inv_idle hup' hp
    · simpa only [hw] using inv_idle hup' hp

theorem flush_inv {s : Session} (inner : Poll (IoResult Unit)) (h : Inv env host key clientId s)
    (hc : LeavesWrite s.stream) :
    Inv env host key clientId (flushStep inner s) := by
  unfold flushStep pollFlush
  obtain ⟨st,hw,hinv⟩ | ⟨r,st,hw,hr,hnone,hup⟩ := writePending_inv h hc
  · simpa only [hw] using hinv
  · have hp : ∀ p, st.pendingWrite = some p → p.originalLen = 0 := by
      intro p hs
      rw [hnone] at hs
      cases hs
    obtain rfl | ⟨n,rfl⟩ := hr
    · simpa only [hw] using inv_idle hup hp
    · simpa only [hw] using inv_idle hup hp

theorem Inv.exact {s : Session} (h : Inv env host key clientId s) :
    UploadExact env host key clientId s := by
  obtain ⟨tail,howed,hup⟩ := h
  unfold UploadExact
  have hfront : ∀ bs, s.stream.sink.sent ++ s.stream.rest = bs → s.stream.sink.sent <+: bs :=
    fun bs hb => ⟨_,hb⟩
  cases hup.stage with
  | start h0 _ hsent =>
    rw [if_neg (by rw [h0]; decide), hsent]
    exact List.nil_prefix
  | hello h1 hcat =>
    rw [if_neg (by rw [h1]; decide)]
    exact hfront _ hcat
  | data pre records h8 hpre hcat hrec =>
    rw [if_pos h8]
    refine ⟨pre,records,tail,hpre,hfront _ hcat,hrec,?_,?_⟩
    · cases hp : s.stream.pendingWrite with
      | none => exact .inl (owed_none howed hp)
      | some p =>
        obtain ⟨_,ht⟩ | ⟨hc,_⟩ := owed_some howed hp
        · exact .inl ht
        · rw [hc]
          exact .inr rfl
    · intro hp
      rw [rest_none hp, List.append_nil] at hcat
      exact ⟨owed_none howed hp,hcat⟩

/-- The upload is exact in every run in which no read and no flush finishes a write that
its caller is still waiting for. -/
theorem ssr_tls_ticket_upload_exact (env : TicketEnv) (source : Source UInt8)
    (answers : List WriteAnswer) (host : String) (key : Bytes) (clientId : ClientId)
    (hw : (⟨answers,[]⟩ : Sink UInt8).Willing) (s : Session)
    (h : Runs env LeavesWrite (new source ⟨answers,[]⟩ host key clientId) s) :
    UploadExact env host key clientId s := by
  refine Inv.exact ?_
  induction h with
  | start =>
    exact inv_idle ⟨rfl,rfl,rfl,hw,.start rfl rfl rfl rfl rfl⟩ nofun
  | write draw buf _ hm ih => exact write_inv draw buf ih hm
  | read room _ hc ih => exact read_inv room ih hc
  | flush inner _ hc ih => exact flush_inv inner ih hc

/-- All digests and draws are zero. -/
def sampleEnv : TicketEnv :=
  ⟨fun _ _ => Vector.replicate 20 0, 0, Vector.replicate 18 0, 0, 0, fun _ => 0,
    Vector.replicate 22 0⟩

def sampleStream (answers : List WriteAnswer) : SsrTlsTicketStream :=
  new [.segment 0 (List.replicate 75 0)] ⟨answers, []⟩ "cdn.example" [7] (Vector.replicate 32 0)

/-- The hello stalls, a flush does not finish it, the retry does; then a read finishes
the handshake, and another write follows. -/
theorem ssr_tls_ticket_upload_exact_handshake :
    UploadExact sampleEnv "cdn.example" [7] (Vector.replicate 32 0)
      ((readStep sampleEnv 8 ((flushStep .pending ((WriteSession.start (sampleStream
        [.accept 20, .pending, .accept 3, .pending, .accept 1000, .accept 100, .accept 100])).write
          (pollWrite sampleEnv fun _ => 0) [5])).write
            (pollWrite sampleEnv fun _ => 0) [5])).write (pollWrite sampleEnv fun _ => 0) [6]) := by
  refine ssr_tls_ticket_upload_exact sampleEnv [.segment 0 (List.replicate 75 0)]
    [.accept 20, .pending, .accept 3, .pending, .accept 1000, .accept 100, .accept 100] _ _ _
    (by simp [Sink.Willing]) _
    (.write _ [6] (.read 8 (.write _ [5] (.flush .pending (.write _ [5] .start ?_) ?_) ?_) ?_) ?_)
  all_goals decide +kernel

/-- The handshake, then a write that stalls, is finished by a flush, and is retried. -/
def flushedRetry : Session :=
  (flushStep (.ready (.ok ())) ((readStep sampleEnv 8 ((WriteSession.start (sampleStream
    [.accept 1000, .accept 100, .accept 2, .pending, .accept 100, .accept 100])).write
      (pollWrite sampleEnv fun _ => 0) [5])).write
        (pollWrite sampleEnv fun _ => 0) [6])).write (pollWrite sampleEnv fun _ => 0) [6]

/-- The retried write is accepted once and sent twice. -/
theorem ssr_tls_ticket_flush_repeats_write :
    ¬ ∀ s, Runs sampleEnv (fun _ => True) (sampleStream
        [.accept 1000, .accept 100, .accept 2, .pending, .accept 100, .accept 100]) s →
      UploadExact sampleEnv "cdn.example" [7] (Vector.replicate 32 0) s := by
  intro h
  have hx := h flushedRetry (.write _ [6] (.flush _ (.write _ [6] (.read 8
    (.write _ [5] .start (by decide +kernel)) trivial) (by decide +kernel)) trivial)
    (by decide +kernel))
  have hstatus : flushedRetry.stream.handshakeStatus = 8 := by decide +kernel
  have hpending : flushedRetry.stream.pendingWrite = none := by decide +kernel
  have haccepted : flushedRetry.accepted = [[5], [6]] := by decide +kernel
  have hsent : flushedRetry.stream.sink.sent =
      ssrTlsTicketClientHello sampleEnv "cdn.example" [7] (Vector.replicate 32 0) ++
        ssrTlsTicketFinish sampleEnv [7] (Vector.replicate 32 0) [] ++
        (ssrTlsTicketPackRecord [5] ++ (ssrTlsTicketPackRecord [6] ++ ssrTlsTicketPackRecord [6])) := by
    decide +kernel
  unfold UploadExact at hx
  rw [if_pos hstatus] at hx
  obtain ⟨pre,records,tail,hpre,_,hrec,_,hall⟩ := hx
  obtain ⟨rfl,heq⟩ := hall hpending
  rw [hsent] at heq
  obtain rfl | rfl := hpre
  · -- the stream begins with the hello
    have hhead := congrArg List.head? heq
    simp [ssrTlsTicketClientHello, ssrTlsTicketFinish] at hhead
  · obtain rfl := List.append_cancel_left heq
    rw [haccepted] at hrec
    obtain ⟨drained,hd⟩ := hrec.drain [] false
    have hpayload : (ssrTlsTicketDrainRecords (ssrTlsTicketPackRecord [5] ++
        (ssrTlsTicketPackRecord [6] ++ ssrTlsTicketPackRecord [6])) [] false).2.2 = [5, 6, 6] := by
      decide +kernel
    rw [hd] at hpayload
    simp at hpayload

end SsrTlsTicketStream
end AtlasKernel.Shadowsocks
