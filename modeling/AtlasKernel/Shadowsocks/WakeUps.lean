import AtlasKernel.H2.Transport
import AtlasKernel.Lib.WakeUps
import AtlasKernel.Shadowsocks.RandomHead
import AtlasKernel.Shadowsocks.SimpleObfsHttp
import AtlasKernel.Shadowsocks.SimpleObfsTls
import AtlasKernel.Shadowsocks.TlsTicket

/-! Which polls of the stream adapters are answered `Pending` although no inner poll was.
Source: `shadowsocks/obfs.rs`, `shadowsocks/ssr/obfs/tls_ticket.rs` and
`shadowsocks/transport.rs`. -/
namespace AtlasKernel.Shadowsocks
open AtlasKernel.Lib AtlasKernel.H2

theorem resume_drawn (src : Source UInt8) (p : PendingWrite) (sink : Sink UInt8) :
    Drawn (src, sink) (src, (p.resume sink).2.2) (asleep (p.resume sink).1) := by
  have hloop := Drawn.writeLoop src p.data p.offset sink
  rw [PendingWrite.resume, PendingWrite.pollWriteAll]
  cases hexit : (writeLoop p.data p.offset sink).1 with
  | done | pending | zero =>
    rw [hexit] at hloop
    exact hloop
  | failed err =>
    rw [hexit] at hloop
    exact hloop

/-- A resumed write goes through exactly if the next burst covers it. -/
theorem resume_ok_iff (p : PendingWrite) (sink : Sink UInt8) :
    (∃ n, (p.resume sink).1 = .ready (.ok n)) ↔ p.rest.length ≤ sink.burst := by
  obtain ⟨s',hr,_,hb⟩ | ⟨p',s',hr,_,_,hb⟩ | ⟨e,s',lost,hr,_,hb⟩ := resume_cases p sink
  · rw [hr]
    exact ⟨fun _ => hb, fun _ => ⟨_, rfl⟩⟩
  · rw [hr]
    refine ⟨?_, fun hle => absurd hle (Nat.not_le.mpr hb)⟩
    rintro ⟨n,hn⟩
    cases hn
  · rw [hr]
    refine ⟨?_, fun hle => absurd hle (Nat.not_le.mpr hb)⟩
    rintro ⟨n,hn⟩
    cases hn

theorem takePending_drawn (src : Source UInt8) (pending : Option PendingWrite) (sink : Sink UInt8) :
    ∃ k, Drawn (src, sink) (src, (takePending pending sink).2.2) k ∧
      k = ((takePending pending sink).1.map asleep).getD 0 := by
  cases pending with
  | none => exact ⟨0, .refl _, rfl⟩
  | some p => exact ⟨_, resume_drawn src p sink, rfl⟩

/-! ## Random head -/

namespace RandomHeadStream

def inner (s : RandomHeadStream) : Inner UInt8 := (s.source, s.sink)

theorem writePending_drawn (s : RandomHeadStream) :
    Drawn s.inner s.writePending.2.inner ((s.writePending.1.map asleep).getD 0) := by
  rw [writePending]
  split
  · exact .refl _
  · exact resume_drawn s.source _ s.sink

theorem flushBuffered_drawn (s : RandomHeadStream) :
    Drawn s.inner s.flushBuffered.2.inner ((s.flushBuffered.1.map asleep).getD 0) := by
  rw [flushBuffered]
  split
  · exact .refl _
  · exact writePending_drawn
      { s with bufferedPayload := [], pendingWrite := some (.new s.bufferedPayload 0) }

theorem flushBuffered_quick (s : RandomHeadStream) :
    (s.flushBuffered.1 = none ∨ ∃ n, s.flushBuffered.1 = some (.ready (.ok n))) ↔
      s.bufferedPayload.length ≤ s.sink.burst := by
  rw [flushBuffered]
  split
  case isTrue hempty =>
    rw [hempty]
    simp
  case isFalse =>
    have hok := resume_ok_iff (.new s.bufferedPayload 0) s.sink
    rw [new_rest] at hok
    rw [← hok, writePending]
    simp

/-- Behind a finished write. -/
def RestSleeps (s : RandomHeadStream) : Prop :=
  s.receivedResponse = false ∧ (∃ b bs src, s.source = .segment b bs :: src) ∧
    s.bufferedPayload.length ≤ s.sink.burst

theorem readRest_sleeps (s : RandomHeadStream) (room : Nat) :
    Sleeps (s.readRest room).1 s.inner (s.readRest room).2.inner s.RestSleeps := by
  rw [readRest]
  split
  case isTrue hanswered =>
    refine (Drawn.of_source (pollRead_pendings room s.source)).sleeps.congr ⟨False.elim, ?_⟩
    rintro ⟨hwaiting,_⟩
    rw [hanswered] at hwaiting
    cases hwaiting
  case isFalse hwaiting =>
    have hread := pollRead_pendings 8192 s.source
    have hsegment := @pollRead_segment_iff _ 8192 (by decide) s.source
    have hother : (¬ ∃ c cs, (Lib.pollRead 8192 s.source).1 = .ready (.ok (c :: cs))) →
        (False ↔ s.RestSleeps) := fun hno =>
      ⟨False.elim, fun hsleeps => hno (hsegment.mp hsleeps.2.1)⟩
    split
    case h_1 src hr =>
      rw [hr] at hread hother
      exact (Drawn.of_source hread).sleeps.congr (hother (by simp))
    case h_2 err src hr =>
      rw [hr] at hread hother
      exact (Drawn.of_source hread).ready.congr (hother (by simp))
    case h_3 src hr =>
      rw [hr] at hread hother
      exact (Drawn.of_source hread).ready.congr (hother (by simp))
    case h_4 c cs src hr =>
      rw [hr] at hread hsegment
      have hquick := flushBuffered_quick
        { s with source := src, receivedResponse := true, flushedPayload := true }
      have hflush := flushBuffered_drawn
        { s with source := src, receivedResponse := true, flushedPayload := true }
      have hsleeps : s.RestSleeps ↔ s.bufferedPayload.length ≤ s.sink.burst :=
        ⟨fun h => h.2.2, fun h => ⟨Bool.eq_false_iff.mpr hwaiting, hsegment.mpr ⟨c, cs, rfl⟩, h⟩⟩
      refine (Sleeps.after (Drawn.of_source hread) ?_).congr (hquick.trans hsleeps.symm)
      split
      case h_1 err s₂ heq =>
        rw [heq] at hflush ⊢
        exact hflush.ready.congr (by simp)
      case h_2 r s₂ herr heq =>
        rw [heq] at hflush ⊢
        refine ⟨_, hflush, ?_⟩
        cases r with
        | none => simp
        | some answer =>
          cases answer with
          | pending => simp [asleep]
          | ready result =>
            cases result with
            | error err => exact absurd rfl (herr err)
            | ok n => simp [asleep]

/-- The pending write is finished, the first answer of the server comes, and what was kept back
goes out at once. -/
def ReadSleeps (s : RandomHeadStream) : Prop :=
  (∀ p ∈ s.pendingWrite, p.rest.length ≤ s.sink.burst) ∧ s.writePending.2.RestSleeps

theorem writePending_quick (s : RandomHeadStream) :
    (s.writePending.1 = none ∨ ∃ n, s.writePending.1 = some (.ready (.ok n))) ↔
      ∀ p ∈ s.pendingWrite, p.rest.length ≤ s.sink.burst := by
  rw [writePending]
  cases s.pendingWrite with
  | none => simp
  | some p => simpa using resume_ok_iff p s.sink

theorem pollRead_sleeps (s : RandomHeadStream) (room : Nat) :
    Sleeps (s.pollRead room).1 s.inner (s.pollRead room).2.inner s.ReadSleeps := by
  have hdrawn := s.writePending_drawn
  have hquick := s.writePending_quick
  rw [pollRead, ReadSleeps, ← hquick]
  split
  case h_1 s₁ heq =>
    rw [heq] at hdrawn
    refine ⟨1, hdrawn, ?_⟩
    simp [heq]
  case h_2 err s₁ heq =>
    rw [heq] at hdrawn
    refine hdrawn.ready.congr ?_
    simp [heq]
  case h_3 n s₁ heq =>
    rw [heq] at hdrawn ⊢
    exact (s₁.readRest_sleeps room).after hdrawn |>.congr (by simp)
  case h_4 s₁ heq =>
    rw [heq] at hdrawn ⊢
    exact (s₁.readRest_sleeps room).after hdrawn |>.congr (by simp)

theorem writeThrough_sleeps (env : HeadEnv) (s : RandomHeadStream) (buf : Bytes) :
    Sleeps (s.writeThrough env buf).1 s.inner (s.writeThrough env buf).2.inner False := by
  rw [writeThrough]
  split
  · exact (Drawn.pollWrite s.source s.sink buf).sleeps
  · dsimp only
    split
    · exact (Drawn.refl s.inner).ready
    · exact (resume_drawn s.source _ s.sink).sleeps

theorem writeRest_sleeps (env : HeadEnv) (s : RandomHeadStream) (buf : Bytes) :
    Sleeps (s.writeRest env buf).1 s.inner (s.writeRest env buf).2.inner False := by
  rw [writeRest]
  split
  case isTrue =>
    have hdrawn := flushBuffered_drawn { s with flushedPayload := true }
    split
    case h_1 s₁ heq =>
      rw [heq] at hdrawn
      exact ⟨1, hdrawn, by simp⟩
    case h_2 err s₁ heq =>
      rw [heq] at hdrawn
      exact hdrawn.ready
    case h_3 n s₁ heq =>
      rw [heq] at hdrawn
      exact (s₁.writeThrough_sleeps env buf).after hdrawn
    case h_4 s₁ heq =>
      rw [heq] at hdrawn
      exact (s₁.writeThrough_sleeps env buf).after hdrawn
  case isFalse => exact s.writeThrough_sleeps env buf

theorem pollWrite_sleeps (env : HeadEnv) (s : RandomHeadStream) (buf : Bytes) :
    Sleeps (s.pollWrite env buf).1 s.inner (s.pollWrite env buf).2.inner False := by
  have hdrawn := s.writePending_drawn
  rw [pollWrite]
  split
  case h_1 s₁ heq =>
    rw [heq] at hdrawn
    exact ⟨1, hdrawn, by simp⟩
  case h_2 err s₁ heq =>
    rw [heq] at hdrawn
    exact hdrawn.ready
  case h_3 n s₁ heq =>
    rw [heq] at hdrawn
    exact (s₁.writeRest_sleeps env buf).after hdrawn
  case h_4 s₁ heq =>
    rw [heq] at hdrawn
    exact (s₁.writeRest_sleeps env buf).after hdrawn

end RandomHeadStream

/-! ## TLS ticket -/

namespace SsrTlsTicketStream

def inner (s : SsrTlsTicketStream) : Inner UInt8 := (s.source, s.sink)

theorem writePending_drawn (s : SsrTlsTicketStream) :
    Drawn s.inner s.writePending.2.inner ((s.writePending.1.map asleep).getD 0) := by
  rw [writePending]
  split
  · exact .refl _
  · exact resume_drawn s.source _ s.sink

theorem writePending_quick (s : SsrTlsTicketStream) :
    (s.writePending.1 = none ∨ ∃ n, s.writePending.1 = some (.ready (.ok n))) ↔
      ∀ p ∈ s.pendingWrite, p.rest.length ≤ s.sink.burst := by
  rw [writePending]
  cases s.pendingWrite with
  | none => simp
  | some p => simpa using resume_ok_iff p s.sink

def Received.asleep : Received → Nat
  | .answer r => Lib.asleep r
  | .verified => 0

theorem serveBuffered_awake (env : TicketEnv) (s : SsrTlsTicketStream) (room : Nat) :
    (s.serveBuffered env room).2.inner = s.inner ∧
      ∀ r, (s.serveBuffered env room).1 = some r → r.asleep = 0 := by
  rw [serveBuffered]
  split
  · split
    · exact ⟨rfl, fun r hr => by cases hr; rfl⟩
    · split
      · exact ⟨rfl, fun r hr => by cases hr; rfl⟩
      · exact ⟨rfl, fun r hr => by cases hr⟩
  · split
    · split
      · exact ⟨rfl, fun r hr => by cases hr; rfl⟩
      · exact ⟨rfl, fun r hr => by cases hr; rfl⟩
    · exact ⟨rfl, fun r hr => by cases hr⟩

theorem receiveLoop_drawn (env : TicketEnv) (s : SsrTlsTicketStream) (room : Nat) :
    Drawn s.inner (s.receiveLoop env room).2.inner (s.receiveLoop env room).1.asleep := by
  fun_induction receiveLoop env s room with
  | case1 s r s' hs =>
    obtain ⟨hinner,hawake⟩ := serveBuffered_awake env s room
    rw [hs] at hinner hawake
    rw [hawake r rfl]
    exact hinner ▸ .refl _
  | case2 s s' hs source hr | case4 s s' hs source hr =>
    obtain ⟨hinner,_⟩ := serveBuffered_awake env s room
    have hread := pollRead_pendings 8192 s'.source
    rw [hs] at hinner
    rw [hr] at hread
    exact hinner ▸ Drawn.of_source hread
  | case3 s s' hs e source hr =>
    obtain ⟨hinner,_⟩ := serveBuffered_awake env s room
    have hread := pollRead_pendings 8192 s'.source
    rw [hs] at hinner
    rw [hr] at hread
    exact hinner ▸ Drawn.of_source hread
  | case5 s s' hs p source hr hp ih =>
    obtain ⟨hinner,_⟩ := serveBuffered_awake env s room
    have hread := pollRead_pendings 8192 s'.source
    rw [hs] at hinner
    rw [hr] at hread
    have hfirst : Drawn s.inner (source, s'.sink) 0 := hinner ▸ Drawn.of_source hread
    have hboth := hfirst.trans ih
    rw [Nat.zero_add] at hboth
    exact hboth

/-- The pending write is finished, this read completes a handshake that verifies, and the finish
packet goes out at once. -/
def ReadSleeps (env : TicketEnv) (s : SsrTlsTicketStream) (room : Nat) : Prop :=
  (∀ p ∈ s.pendingWrite, p.rest.length ≤ s.sink.burst) ∧
    drainBuffer s.writePending.2.readBuffer room = none ∧
    ∃ s₁, s.writePending.2.receiveLoop env room = (.verified, s₁) ∧
      (ssrTlsTicketFinish env s₁.key s₁.clientId s₁.sendBuffer).length ≤ s₁.sink.burst

theorem readRest_sleeps (env : TicketEnv) (s : SsrTlsTicketStream) (room : Nat) :
    Sleeps (s.readRest env room).1 s.inner (s.readRest env room).2.inner
      (drainBuffer s.readBuffer room = none ∧ ∃ s₁, s.receiveLoop env room = (.verified, s₁) ∧
        (ssrTlsTicketFinish env s₁.key s₁.clientId s₁.sendBuffer).length ≤ s₁.sink.burst) := by
  have hloop := s.receiveLoop_drawn env room
  rw [readRest]
  split
  case h_1 out rest hdrain =>
    exact (Drawn.refl s.inner).ready.congr (by simp [hdrain])
  case h_2 hdrain =>
    split
    case h_1 r s₁ heq =>
      rw [heq] at hloop
      exact Drawn.sleeps (r := r) hloop |>.congr (by simp [heq])
    case h_2 s₁ heq =>
      rw [heq] at hloop
      have hfinish := writePending_drawn (s₁.queueFinish env)
      have hquick := writePending_quick (s₁.queueFinish env)
      have hsleeps : (∀ p ∈ (s₁.queueFinish env).pendingWrite,
          p.rest.length ≤ (s₁.queueFinish env).sink.burst) ↔
          (ssrTlsTicketFinish env s₁.key s₁.clientId s₁.sendBuffer).length ≤ s₁.sink.burst := by
        simp [queueFinish]
      refine (Sleeps.after hloop ?_).congr (hquick.trans (hsleeps.trans (by simp [hdrain, heq])))
      split
      case h_1 err s₂ heq' =>
        rw [heq'] at hfinish ⊢
        exact hfinish.ready.congr (by simp)
      case h_2 r s₂ herr heq' =>
        rw [heq'] at hfinish ⊢
        refine ⟨_, hfinish, ?_⟩
        cases r with
        | none => simp
        | some answer =>
          cases answer with
          | pending => simp [Lib.asleep]
          | ready result =>
            cases result with
            | error err => exact absurd rfl (herr err)
            | ok n => simp [Lib.asleep]

theorem pollRead_sleeps (env : TicketEnv) (s : SsrTlsTicketStream) (room : Nat) :
    Sleeps (s.pollRead env room).1 s.inner (s.pollRead env room).2.inner (s.ReadSleeps env room) := by
  have hdrawn := s.writePending_drawn
  have hquick := s.writePending_quick
  rw [pollRead, ReadSleeps, ← hquick]
  split
  case h_1 s₁ heq =>
    rw [heq] at hdrawn
    refine ⟨1, hdrawn, ?_⟩
    simp [heq]
  case h_2 err s₁ heq =>
    rw [heq] at hdrawn
    refine hdrawn.ready.congr ?_
    simp [heq]
  case h_3 n s₁ heq =>
    rw [heq] at hdrawn ⊢
    exact (s₁.readRest_sleeps env room).after hdrawn |>.congr (by simp)
  case h_4 s₁ heq =>
    rw [heq] at hdrawn ⊢
    exact (s₁.readRest_sleeps env room).after hdrawn |>.congr (by simp)

theorem writeNew_sleeps (s : SsrTlsTicketStream) (buf : Bytes) :
    Sleeps (s.writeNew buf).1 s.inner (s.writeNew buf).2.inner False := by
  have hdrawn := s.writePending_drawn
  rw [writeNew]
  split
  case h_1 r s₁ heq =>
    rw [heq] at hdrawn
    exact Drawn.sleeps (r := r) hdrawn
  case h_2 s₁ heq =>
    rw [heq] at hdrawn
    exact hdrawn.ready

theorem writeRest_sleeps (env : TicketEnv) (draw : Nat → UInt16) (s : SsrTlsTicketStream)
    (buf : Bytes) :
    Sleeps (s.writeRest env draw buf).1 s.inner (s.writeRest env draw buf).2.inner False := by
  rw [writeRest]
  split
  · exact writeNew_sleeps _ buf
  · split
    · exact (Drawn.refl s.inner).ready
    · have hinner : (if buf = [] then s else
          { s with sendBuffer := s.sendBuffer ++ ssrTlsTicketRecords draw true buf }).inner = s.inner := by
        split
        · rfl
        · rfl
      rw [← hinner]
      generalize (if buf = [] then s else
        { s with sendBuffer := s.sendBuffer ++ ssrTlsTicketRecords draw true buf }) = s₁
      dsimp only
      split
      · exact writeNew_sleeps _ buf
      · exact (Drawn.refl s₁.inner).ready

theorem pollWrite_sleeps (env : TicketEnv) (draw : Nat → UInt16) (s : SsrTlsTicketStream)
    (buf : Bytes) :
    Sleeps (s.pollWrite env draw buf).1 s.inner (s.pollWrite env draw buf).2.inner False := by
  have hdrawn := s.writePending_drawn
  rw [pollWrite]
  split
  case h_1 s₁ heq =>
    rw [heq] at hdrawn
    exact ⟨1, hdrawn, by simp⟩
  case h_2 err s₁ heq =>
    rw [heq] at hdrawn
    exact hdrawn.ready
  case h_3 n s₁ heq =>
    rw [heq] at hdrawn
    split
    · exact hdrawn.ready
    · exact (s₁.writeRest_sleeps env draw buf).after hdrawn
  case h_4 s₁ heq =>
    rw [heq] at hdrawn
    exact (s₁.writeRest_sleeps env draw buf).after hdrawn

end SsrTlsTicketStream

/-! ## simple-obfs -/

theorem SimpleObfsHttpStream.pollRead_pendings (s : SimpleObfsHttpStream) (room : Nat) :
    readPendings s.inner = readPendings (s.pollRead room).2.inner + asleep (s.pollRead room).1 := by
  rw [SimpleObfsHttpStream.pollRead]
  split
  · rfl
  · split
    · have hloop := readLoop_pendings responseWant responseFeed (s.readBuffer, none) s.inner
      rw [readResponse]
      split
      case h_1 heq | h_2 heq | h_3 heq =>
        rw [heq] at hloop
        exact hloop
      case h_4 heq =>
        rw [heq] at hloop
        dsimp only
        split
        · exact hloop
        · exact hloop
    · exact Lib.pollRead_pendings room s.inner

theorem pollReadRecord_pendings (st : TlsReadState) (stream : Source UInt8) :
    readPendings stream = readPendings (st.pollReadRecord stream).2.2 +
      asleep (st.pollReadRecord stream).1 := by
  have hheader := readLoop_pendings TlsReadState.headerWant TlsReadState.headerFeed st stream
  rw [TlsReadState.pollReadRecord]
  split
  case h_1 heq | h_2 heq | h_3 heq =>
    rw [heq] at hheader
    exact hheader
  case h_4 st₁ stream₁ heq =>
    rw [heq] at hheader
    split
    · exact hheader
    · have hpayload := readLoop_pendings TlsReadState.payloadWant TlsReadState.payloadFeed
        (st₁.lengthRead, []) stream₁
      split
      case h_1 heq' | h_2 heq' | h_3 heq' | h_4 heq' =>
        rw [heq'] at hpayload
        exact hheader.trans hpayload

namespace SimpleObfsTlsStream

theorem recordLoop_pendings (s : SimpleObfsTlsStream) (room : Nat) :
    readPendings s.inner = readPendings (s.recordLoop room).2.inner + asleep (s.recordLoop room).1 := by
  fun_induction recordLoop s room with
  | case1 s st inner hr | case2 s err st inner hr =>
    have hrecord := pollReadRecord_pendings (s.readState.getD (.new 0)) s.inner
    rw [hr] at hrecord
    exact hrecord
  | case3 s record st inner hr hskip ih =>
    have hrecord := pollReadRecord_pendings (s.readState.getD (.new 0)) s.inner
    rw [hr] at hrecord
    exact hrecord.trans ih
  | case4 s record st inner hr hskip buffer out rest hdrain =>
    have hrecord := pollReadRecord_pendings (s.readState.getD (.new 0)) s.inner
    rw [hr] at hrecord
    exact hrecord
  | case5 s record st inner hr hskip buffer hdrain =>
    have hrecord := pollReadRecord_pendings (s.readState.getD (.new 0)) s.inner
    rw [hr] at hrecord
    exact hrecord

theorem pollRead_pendings (s : SimpleObfsTlsStream) (room : Nat) :
    readPendings s.inner = readPendings (s.pollRead room).2.inner + asleep (s.pollRead room).1 := by
  rw [pollRead]
  split
  · rfl
  · exact s.recordLoop_pendings room

end SimpleObfsTlsStream

theorem SimpleObfsHttpUpload.writeRest_sleeps (request : Bytes → Bytes) (s : SimpleObfsHttpUpload)
    (buf : Bytes) :
    Sleeps (s.writeRest request buf).1 ([], s.inner) ([], (s.writeRest request buf).2.inner) False := by
  rw [SimpleObfsHttpUpload.writeRest]
  split
  · exact (resume_drawn [] _ s.inner).sleeps
  · exact (Drawn.pollWrite [] s.inner buf).sleeps

theorem SimpleObfsHttpUpload.pollWrite_sleeps (request : Bytes → Bytes) (s : SimpleObfsHttpUpload)
    (buf : Bytes) :
    Sleeps (s.pollWrite request buf).1 ([], s.inner) ([], (s.pollWrite request buf).2.inner) False := by
  obtain ⟨k,hdrawn,hk⟩ := takePending_drawn [] s.pendingWrite s.inner
  rw [SimpleObfsHttpUpload.pollWrite]
  split
  case h_1 heq | h_2 heq =>
    rw [heq] at hdrawn hk
    subst hk
    exact (SimpleObfsHttpUpload.writeRest_sleeps request _ buf).after hdrawn
  case h_3 r pending inner _ heq =>
    rw [heq] at hdrawn hk
    subst hk
    exact Drawn.sleeps (r := r) hdrawn

theorem SimpleObfsTlsUpload.pollWrite_sleeps (hello : Bytes → Bytes) (s : SimpleObfsTlsUpload)
    (buf : Bytes) :
    Sleeps (s.pollWrite hello buf).1 ([], s.inner) ([], (s.pollWrite hello buf).2.inner) False := by
  obtain ⟨k,hdrawn,hk⟩ := takePending_drawn [] s.pendingWrite s.inner
  rw [SimpleObfsTlsUpload.pollWrite]
  split
  case h_1 r pending inner heq =>
    rw [heq] at hdrawn hk
    subst hk
    exact Drawn.sleeps (r := r) hdrawn
  case h_2 pending inner heq =>
    rw [heq] at hdrawn hk
    subst hk
    exact (resume_drawn [] _ inner).sleeps.after hdrawn

/-! ## HTTP/2 -/

/-- What `poll_data` answers; with no answer left the stream is at its end. -/
inductive DataAnswer where
  | pending
  | data (bytes : Bytes)
  | fail (err : IoError)
deriving DecidableEq, Repr

def answerData : PollData (List DataAnswer)
  | [] => (.ready none, [])
  | .pending :: as => (.pending, as)
  | .data bytes :: as => (.ready (some (.ok bytes)), as)
  | .fail err :: as => (.ready (some (.error err)), as)

def dataPendings : List DataAnswer → Nat
  | [] => 0
  | .pending :: as => dataPendings as + 1
  | _ :: as => dataPendings as

def capacityPendings : List CapacityAnswer → Nat
  | [] => 0
  | .pending :: as => capacityPendings as + 1
  | _ :: as => capacityPendings as

abbrev H2Stream := H2Transport (List DataAnswer)

theorem answerData_pendings (as : List DataAnswer) :
    dataPendings as = dataPendings (answerData as).2 + asleep (answerData as).1 := by
  cases as with
  | nil => rfl
  | cons a as =>
    cases a with
    | pending | data bytes | fail err => rfl

theorem h2_pollRead_pendings (s : H2Stream) (room : Nat) :
    dataPendings s.recv = dataPendings (s.pollRead answerData room).2.recv +
      asleep (s.pollRead answerData room).1 := by
  have hdata := answerData_pendings s.recv
  rw [H2Transport.pollRead]
  split
  · rfl
  · split
    case h_1 heq | h_2 heq | h_3 heq =>
      rw [heq] at hdata
      exact hdata
    case h_4 heq =>
      rw [heq] at hdata
      split
      · exact hdata
      · exact hdata

/-- The send stream is ready with no capacity. -/
def H2WriteSleeps (s : H2Stream) (data : Bytes) : Prop :=
  s.closed = false ∧ data ≠ [] ∧ ∃ as, s.send.answers = .capacity 0 :: as

theorem pollCapacity_answers (send : SendStream) (hleft : send.pollCapacity.2.answers ≠ []) :
    send.answers = send.pollCapacity.1 :: send.pollCapacity.2.answers := by
  rw [SendStream.pollCapacity] at hleft ⊢
  split
  case h_1 hnone =>
    rw [hnone] at hleft
    exact absurd hnone hleft
  case h_2 hanswers => exact hanswers

/-- A write of some data asks once for capacity, and waits when it is not there or is none. -/
theorem h2_pollWrite_asks (s : H2Stream) {data : Bytes} (hopen : s.closed = false) (hdata : data ≠ []) :
    (s.pollWrite data).2.send.answers = s.send.pollCapacity.2.answers ∧
      ((s.pollWrite data).1 = .pending ↔
        s.send.pollCapacity.1 = .pending ∨ s.send.pollCapacity.1 = .capacity 0) := by
  rw [H2Transport.pollWrite, if_neg (Bool.eq_false_iff.mp hopen), if_neg hdata]
  dsimp only
  -- what is reserved first leaves the answers as they are
  have hsend : (if s.requestedWriteCapacity = 0 then
      { s with
        send := s.send.reserveCapacity (min data.length h2MaxDataFrame)
        requestedWriteCapacity := min data.length h2MaxDataFrame }
      else s).send.answers = s.send.answers := by
    split
    · rfl
    · rfl
  generalize (if s.requestedWriteCapacity = 0 then
      { s with
        send := s.send.reserveCapacity (min data.length h2MaxDataFrame)
        requestedWriteCapacity := min data.length h2MaxDataFrame }
      else s) = s₁ at hsend ⊢
  rw [SendStream.pollCapacity, SendStream.pollCapacity, ← hsend]
  cases hanswers : s₁.send.answers with
  | nil => simp [← hsend, hanswers]
  | cons a as =>
    cases a with
    | pending | fail err | closed => simp
    | capacity n =>
      cases n with
      | zero => simp [SendStream.reserveCapacity]
      | succ n =>
        dsimp only
        rw [SendStream.sendData]
        cases s₁.send.broken with
        | none => simp
        | some err => simp

theorem capacityPendings_cons (a : CapacityAnswer) (as : List CapacityAnswer) :
    capacityPendings as < capacityPendings (a :: as) ↔ a = .pending := by
  cases a with
  | pending => exact iff_of_true (Nat.lt_succ_self _) rfl
  | capacity n | fail err | closed => exact iff_of_false (Nat.lt_irrefl _) (by simp)

theorem h2_pollWrite_registers (s : H2Stream) (data : Bytes)
    (hleft : (s.pollWrite data).2.send.answers ≠ []) :
    Registers (s.pollWrite data).1 (capacityPendings s.send.answers)
      (capacityPendings (s.pollWrite data).2.send.answers) ↔ ¬ H2WriteSleeps s data := by
  have hready : ∀ {v : Except TransportError Nat} {before after : Nat}, Registers (.ready v) before after :=
    fun h => by cases h
  by_cases hclosed : s.closed = true
  · rw [H2Transport.pollWrite, if_pos hclosed]
    refine iff_of_true hready fun h => ?_
    rw [h.1] at hclosed
    cases hclosed
  by_cases hempty : data = []
  · rw [H2Transport.pollWrite, if_neg hclosed, if_pos hempty]
    exact iff_of_true hready fun h => h.2.1 hempty
  have hopen : s.closed = false := Bool.eq_false_iff.mpr hclosed
  obtain ⟨has,hpending⟩ := h2_pollWrite_asks s hopen hempty
  rw [has] at hleft ⊢
  have hanswers := pollCapacity_answers s.send hleft
  have hsleeps : H2WriteSleeps s data ↔ s.send.pollCapacity.1 = .capacity 0 := by
    rw [H2WriteSleeps, hanswers]
    exact ⟨fun ⟨_,_,_,h⟩ => (List.cons.inj h).1, fun h => ⟨hopen, hempty, _, by rw [h]⟩⟩
  rw [Registers, hpending, hanswers, capacityPendings_cons, hsleeps]
  constructor
  · intro h hzero
    have hne := h (.inr hzero)
    rw [hzero] at hne
    cases hne
  · rintro hzero (h | h)
    · exact h
    · exact absurd h hzero

/-! ## All of them -/

theorem registers_of_asleep {β : Type} {r : Poll β} {before after : Nat} (h : before = after + asleep r) :
    Registers r before after := by
  rintro rfl
  exact h ▸ Nat.lt_succ_self after

/-- A poll of a stream adapter that is answered `Pending` has got `Pending` from an inner poll,
except in the three states named. An inner stream is followed as far as its answers go. -/
theorem no_lost_wake_up_iff (head : HeadEnv) (env : TicketEnv) (draw : Nat → UInt16)
    (request hello : Bytes → Bytes) :
    (∀ (s : RandomHeadStream) (room : Nat), (s.pollRead room).2.sink.answers ≠ [] →
      (Registers (s.pollRead room).1 s.inner.pendings (s.pollRead room).2.inner.pendings ↔
        ¬ s.ReadSleeps)) ∧
    (∀ (s : RandomHeadStream) (buf : Bytes), (s.pollWrite head buf).2.sink.answers ≠ [] →
      Registers (s.pollWrite head buf).1 s.inner.pendings (s.pollWrite head buf).2.inner.pendings) ∧
    (∀ (s : SsrTlsTicketStream) (room : Nat),
      (s.pollRead env room).2.sink.answers ≠ [] →
      (Registers (s.pollRead env room).1 s.inner.pendings (s.pollRead env room).2.inner.pendings ↔
        ¬ s.ReadSleeps env room)) ∧
    (∀ (s : SsrTlsTicketStream) (buf : Bytes),
      (s.pollWrite env draw buf).2.sink.answers ≠ [] →
      Registers (s.pollWrite env draw buf).1 s.inner.pendings
        (s.pollWrite env draw buf).2.inner.pendings) ∧
    (∀ (s : H2Stream) (room : Nat),
      Registers (s.pollRead answerData room).1 (dataPendings s.recv)
        (dataPendings (s.pollRead answerData room).2.recv)) ∧
    (∀ (s : H2Stream) (data : Bytes), (s.pollWrite data).2.send.answers ≠ [] →
      (Registers (s.pollWrite data).1 (capacityPendings s.send.answers)
        (capacityPendings (s.pollWrite data).2.send.answers) ↔ ¬ H2WriteSleeps s data)) ∧
    (∀ (s : SimpleObfsHttpStream) (room : Nat),
      Registers (s.pollRead room).1 (readPendings s.inner) (readPendings (s.pollRead room).2.inner)) ∧
    (∀ (s : SimpleObfsHttpUpload) (buf : Bytes),
      (s.pollWrite request buf).2.inner.answers ≠ [] →
      Registers (s.pollWrite request buf).1 (writePendings s.inner.answers)
        (writePendings (s.pollWrite request buf).2.inner.answers)) ∧
    (∀ (s : SimpleObfsTlsStream) (room : Nat),
      Registers (s.pollRead room).1 (readPendings s.inner) (readPendings (s.pollRead room).2.inner)) ∧
    (∀ (s : SimpleObfsTlsUpload) (buf : Bytes),
      (s.pollWrite hello buf).2.inner.answers ≠ [] →
      Registers (s.pollWrite hello buf).1 (writePendings s.inner.answers)
        (writePendings (s.pollWrite hello buf).2.inner.answers)) := by
  -- the write half alone, as an inner stream with nothing to read
  have hsink : ∀ {r : Poll (IoResult Nat)} {sink sink' : Sink UInt8},
      Sleeps r ([], sink) ([], sink') False → sink'.answers ≠ [] →
        Registers r (writePendings sink.answers) (writePendings sink'.answers) := by
    intro r sink sink' hsleeps hleft hr
    have hlt := (hsleeps.registers_iff hleft).mpr not_false hr
    simpa [Inner.pendings, readPendings] using hlt
  exact ⟨fun s room hleft => (s.pollRead_sleeps room).registers_iff hleft,
    fun s buf hleft => ((s.pollWrite_sleeps head buf).registers_iff hleft).mpr not_false,
    fun s room hleft => (s.pollRead_sleeps env room).registers_iff hleft,
    fun s buf hleft => ((s.pollWrite_sleeps env draw buf).registers_iff hleft).mpr not_false,
    fun s room => registers_of_asleep (h2_pollRead_pendings s room),
    fun s data hleft => h2_pollWrite_registers s data hleft,
    fun s room => registers_of_asleep (s.pollRead_pendings room),
    fun s buf hleft => hsink (s.pollWrite_sleeps request buf) hleft,
    fun s room => registers_of_asleep (s.pollRead_pendings room),
    fun s buf hleft => hsink (s.pollWrite_sleeps hello buf) hleft⟩

/-- The server's answer comes now. -/
def answeredHead : RandomHeadStream := .new [.segment 1 [2]] ⟨[.accept 9], []⟩

/-- The server's handshake comes now, all of it. -/
def answeredHello : SsrTlsTicketStream := .sampleStream [.accept 100, .accept 9]

def unreadyH2 : H2Stream := .new [] ⟨[.capacity 0, .pending], none, 0, []⟩

/-- The answer of the server is dropped, the handshake is finished, and the window is empty: each
time the task is told to sleep, and no inner poll was answered `Pending`. -/
theorem lost_wake_up :
    ¬ Registers (answeredHead.pollRead 16).1 answeredHead.inner.pendings
      (answeredHead.pollRead 16).2.inner.pendings ∧
    ¬ Registers (answeredHello.pollRead SsrTlsTicketStream.sampleEnv 16).1 answeredHello.inner.pendings
      (answeredHello.pollRead SsrTlsTicketStream.sampleEnv 16).2.inner.pendings ∧
    ¬ Registers (unreadyH2.pollWrite [7]).1 (capacityPendings unreadyH2.send.answers)
      (capacityPendings (unreadyH2.pollWrite [7]).2.send.answers) := by
  refine ⟨fun h => ?_, fun h => ?_, fun h => ?_⟩
  · exact absurd (h (by decide +kernel)) (by decide +kernel)
  · exact absurd (h (by decide +kernel)) (by decide +kernel)
  · exact absurd (h (by decide +kernel)) (by decide +kernel)

theorem no_lost_wake_up_write :
    Registers (unreadyH2.pollWrite [7]).1 (capacityPendings unreadyH2.send.answers)
      (capacityPendings (unreadyH2.pollWrite [7]).2.send.answers) ↔ ¬ H2WriteSleeps unreadyH2 [7] :=
  (no_lost_wake_up_iff ⟨0, fun _ => 0, fun _ => 0⟩ SsrTlsTicketStream.sampleEnv (fun _ => 0) id id).2.2.2.2.2.1
    unreadyH2 [7] (by decide +kernel)

end AtlasKernel.Shadowsocks
