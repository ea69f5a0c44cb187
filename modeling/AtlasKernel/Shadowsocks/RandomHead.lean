import AtlasKernel.Shadowsocks.PendingWrite

/-! The random-head obfuscation: the client sends a packet of random bytes, keeps its
payload back until the server has answered, and drops that answer.
Source: `shadowsocks/obfs.rs`. -/
namespace AtlasKernel.Shadowsocks
open AtlasKernel.Lib

/-- The draws of the packet and `crc32fast::hash`. -/
structure HeadEnv where
  length : UInt8
  random : Nat → UInt8
  crc32 : Bytes → UInt32

/-- The inner stream is its read half `source` and its write half `sink`. -/
structure RandomHeadStream where
  source : Source UInt8
  sink : Sink UInt8
  sentHeader : Bool
  receivedResponse : Bool
  flushedPayload : Bool
  pendingWrite : Option PendingWrite
  bufferedPayload : Bytes
deriving DecidableEq, Repr

namespace RandomHeadStream

def new (source : Source UInt8) (sink : Sink UInt8) : RandomHeadStream :=
  ⟨source, sink, false, false, false, none, []⟩

def randomHeadPacket (env : HeadEnv) : Bytes :=
  let random := (List.range (env.length.toNat % 96 + 4)).map env.random
  random ++ le32 (0xffffffff - env.crc32 random).toNat

/-- `if let Some(mut pending) = self.pending_write.take()` -/
def writePending (s : RandomHeadStream) : Option (Poll (IoResult Nat)) × RandomHeadStream :=
  match s.pendingWrite with
  | none => (none, s)
  | some pending =>
    let r := pending.resume s.sink
    (some r.1, { s with pendingWrite := r.2.1, sink := r.2.2 })

/-- The payload that was kept back becomes the pending write. -/
def flushBuffered (s : RandomHeadStream) : Option (Poll (IoResult Nat)) × RandomHeadStream :=
  if s.bufferedPayload = [] then (none, s)
  else
    writePending { s with bufferedPayload := [], pendingWrite := some (.new s.bufferedPayload 0) }

/-- `poll_read` behind the pending write. -/
def readRest (s : RandomHeadStream) (room : Nat) : Poll (IoResult Bytes) × RandomHeadStream :=
  if s.receivedResponse then
    let r := Lib.pollRead room s.source
    (r.1, { s with source := r.2 })
  else
    match Lib.pollRead 8192 s.source with
    | (.pending, source) => (.pending, { s with source := source })
    | (.ready (.error err), source) => (.ready (.error err), { s with source := source })
    | (.ready (.ok []), source) => (.ready (.ok []), { s with source := source })
    | (.ready (.ok (_ :: _)), source) =>
      match flushBuffered { s with source := source, receivedResponse := true, flushedPayload := true } with
      | (some (.ready (.error err)), s) => (.ready (.error err), s)
      | (_, s) => (.pending, s)

def pollRead (s : RandomHeadStream) (room : Nat) : Poll (IoResult Bytes) × RandomHeadStream :=
  match s.writePending with
  | (some .pending, s) => (.pending, s)
  | (some (.ready (.error err)), s) => (.ready (.error err), s)
  | (some (.ready (.ok _)), s) => s.readRest room
  | (none, s) => s.readRest room

/-- The end of `poll_write`, with nothing to flush. -/
def writeThrough (env : HeadEnv) (s : RandomHeadStream) (buf : Bytes) :
    Poll (IoResult Nat) × RandomHeadStream :=
  if s.receivedResponse then
    let r := s.sink.pollWrite buf
    (r.1, { s with sink := r.2 })
  else
    let s := { s with bufferedPayload := s.bufferedPayload ++ buf }
    if s.sentHeader then (.ready (.ok buf.length), s)
    else
      let r := (PendingWrite.new (randomHeadPacket env) buf.length).resume s.sink
      (r.1, { s with sentHeader := true, pendingWrite := r.2.1, sink := r.2.2 })

/-- `poll_write` behind the pending write. -/
def writeRest (env : HeadEnv) (s : RandomHeadStream) (buf : Bytes) :
    Poll (IoResult Nat) × RandomHeadStream :=
  if s.receivedResponse ∧ s.flushedPayload = false then
    match flushBuffered { s with flushedPayload := true } with
    | (some .pending, s) => (.pending, s)
    | (some (.ready (.error err)), s) => (.ready (.error err), s)
    | (some (.ready (.ok _)), s) => s.writeThrough env buf
    | (none, s) => s.writeThrough env buf
  else s.writeThrough env buf

def pollWrite (env : HeadEnv) (s : RandomHeadStream) (buf : Bytes) :
    Poll (IoResult Nat) × RandomHeadStream :=
  match s.writePending with
  | (some .pending, s) => (.pending, s)
  | (some (.ready (.error err)), s) => (.ready (.error err), s)
  -- the length of the finished write is dropped, and `buf` is taken as if it were new
  | (some (.ready (.ok _)), s) => s.writeRest env buf
  | (none, s) => s.writeRest env buf

/-! ## Sessions -/

abbrev Session := WriteSession RandomHeadStream UInt8

def readStep (room : Nat) (s : Session) : Session := { s with stream := (s.stream.pollRead room).2 }

/-- The sessions that any interleaving of reads and writes reaches from `st₀`. The condition
restricts the writes that are made. -/
inductive Runs (env : HeadEnv) (Cond : RandomHeadStream → Bytes → Prop) (st₀ : RandomHeadStream) :
    Session → Prop where
  | start : Runs env Cond st₀ (.start st₀)
  | write {s : Session} (buf : Bytes) : Runs env Cond st₀ s → s.caller.mayWrite buf →
      Cond s.stream buf → Runs env Cond st₀ (s.write (pollWrite env) buf)
  | read {s : Session} (room : Nat) : Runs env Cond st₀ s → Runs env Cond st₀ (readStep room s)

/-- The inner stream gets one packet and then what has been accepted, in order; once the
response has been read and nothing is pending it has all of it. -/
def UploadExact (env : HeadEnv) (s : Session) : Prop :=
  s.stream.sink.sent <+: randomHeadPacket env ++ s.accepted.flatten ∧
  (s.stream.receivedResponse = true → s.stream.pendingWrite = none → s.accepted ≠ [] →
    s.stream.sink.sent = randomHeadPacket env ++ s.accepted.flatten)

/-- The write that sends the packet finds the inner stream ready for all of it, or has no
bytes; and while the packet is not sent, a stream whose response is there takes nothing. -/
def HeadFits (env : HeadEnv) (s : RandomHeadStream) (buf : Bytes) : Prop :=
  s.sentHeader = false →
    if s.receivedResponse then s.sink.burst = 0
    else buf = [] ∨ (randomHeadPacket env).length ≤ s.sink.burst

instance (env : HeadEnv) (s : RandomHeadStream) (buf : Bytes) : Decidable (HeadFits env s buf) :=
  inferInstanceAs (Decidable (_ → ite ..))

/-! ## What the inner stream has received -/

/-- The bytes of the pending write that are still to be sent. -/
def rest (s : RandomHeadStream) : Bytes := (s.pendingWrite.map PendingWrite.rest).getD []

theorem rest_none {s : RandomHeadStream} (h : s.pendingWrite = none) : s.rest = [] := by
  rw [rest, h]
  rfl

/-- Before the packet nothing has been taken; from then on every accepted byte is sent, in the
pending write or kept back. -/
inductive Stage (env : HeadEnv) (accepted : List Bytes) (s : RandomHeadStream) : Prop where
  | fresh : s.sentHeader = false → s.sink.sent = [] → s.pendingWrite = none →
      s.bufferedPayload = [] → accepted = [] → Stage env accepted s
  | sent : s.sentHeader = true →
      s.sink.sent ++ s.rest ++ s.bufferedPayload = randomHeadPacket env ++ accepted.flatten →
      Stage env accepted s

structure Uploading (env : HeadEnv) (accepted : List Bytes) (s : RandomHeadStream) : Prop where
  willing : s.sink.Willing
  answered : s.receivedResponse = true → s.flushedPayload = true ∧ s.bufferedPayload = []
  stage : Stage env accepted s

variable {env : HeadEnv} {accepted : List Bytes} {s : RandomHeadStream}

theorem Uploading.idle (h : Uploading env accepted s) (source : Source UInt8) :
    Uploading env accepted { s with source := source } := by
  refine ⟨h.willing, h.answered, ?_⟩
  cases h.stage with
  | fresh h0 hsent hp hbuf hacc => exact .fresh h0 hsent hp hbuf hacc
  | sent h1 hcat => exact .sent h1 hcat

/-- Moving bytes from the pending write to the sink keeps the stage. -/
theorem Uploading.move {pending : Option PendingWrite} {sink : Sink UInt8}
    (h : Uploading env accepted s) (hp : s.pendingWrite ≠ none) (hw : sink.Willing)
    (hcat : sink.sent ++ (pending.map PendingWrite.rest).getD [] = s.sink.sent ++ s.rest) :
    Uploading env accepted { s with pendingWrite := pending, sink := sink } := by
  refine ⟨hw, h.answered, ?_⟩
  cases h.stage with
  | fresh _ _ hnone => exact absurd hnone hp
  | sent h1 hc => exact .sent h1 ((congrArg (· ++ s.bufferedPayload) hcat).trans hc)

/-- A pending write is finished or goes on, and nothing else changes. -/
theorem writePending_cases (h : Uploading env accepted s) :
    (∃ s', s.writePending = (some .pending, s') ∧ Uploading env accepted s' ∧
      s'.receivedResponse = s.receivedResponse) ∨
    (∃ r s', s.writePending = (r, s') ∧ (r = none ∨ ∃ n, r = some (.ready (.ok n))) ∧
      s'.pendingWrite = none ∧ Uploading env accepted s' ∧ (s' = s ∨ s'.sentHeader = true)) := by
  rw [writePending]
  cases hp : s.pendingWrite with
  | none => exact .inr ⟨none, s, rfl, .inl rfl, hp, h, .inl rfl⟩
  | some p =>
    dsimp only
    have hne : s.pendingWrite ≠ none := by
      rw [hp]
      exact Option.some_ne_none p
    have hrest : s.rest = p.rest := by
      rw [rest, hp]
      rfl
    obtain ⟨sink,hr,hsent,hw,_⟩ | ⟨p',sink,hr,_,hsent,hw,_⟩ := resume_willing p h.willing
    · refine .inr ⟨_, { s with pendingWrite := none, sink := sink }, by rw [hr], .inr ⟨_, rfl⟩, rfl,
        h.move hne hw ?_, .inr ?_⟩
      · rw [hrest, ← hsent]
        exact List.append_nil _
      · cases h.stage with
        | fresh _ _ hnone => exact absurd hnone hne
        | sent h1 => exact h1
    · refine .inl ⟨{ s with pendingWrite := some p', sink := sink }, by rw [hr], h.move hne hw ?_, rfl⟩
      rw [hrest, ← hsent]
      rfl

/-- The first answer of the server sends what was kept back. -/
theorem Uploading.answer (h : Uploading env accepted s) (hp : s.pendingWrite = none)
    (source : Source UInt8) :
    Uploading env accepted
      (flushBuffered { s with source := source, receivedResponse := true, flushedPayload := true }).2 := by
  rw [flushBuffered]
  split
  case isTrue hempty =>
    refine ⟨h.willing, fun _ => ⟨rfl, hempty⟩, ?_⟩
    cases h.stage with
    | fresh h0 hsent hnone hbuf hacc => exact .fresh h0 hsent hnone hbuf hacc
    | sent h1 hcat => exact .sent h1 hcat
  case isFalse hfull =>
    let s' : RandomHeadStream :=
      { s with
        source := source
        receivedResponse := true
        flushedPayload := true
        bufferedPayload := []
        pendingWrite := some (.new s.bufferedPayload 0) }
    have hflush : Uploading env accepted s' := by
      refine ⟨h.willing, fun _ => ⟨rfl, rfl⟩, ?_⟩
      cases h.stage with
      | fresh _ _ _ hbuf => exact absurd hbuf hfull
      | sent h1 hcat =>
        refine .sent h1 ?_
        rw [rest_none hp, List.append_nil] at hcat
        exact (List.append_nil _).trans hcat
    obtain ⟨s₁,hw,hup,_⟩ | ⟨r,s₁,hw,_,_,hup,_⟩ := writePending_cases hflush
    · change Uploading env accepted s'.writePending.2
      rw [hw]
      exact hup
    · change Uploading env accepted s'.writePending.2
      rw [hw]
      exact hup

theorem readRest_uploading (h : Uploading env accepted s) (hp : s.pendingWrite = none) (room : Nat) :
    Uploading env accepted (s.readRest room).2 := by
  rw [readRest]
  split
  · exact h.idle _
  · split
    · exact h.idle _
    · exact h.idle _
    · exact h.idle _
    case h_4 source _ =>
      have hanswer := h.answer hp source
      split
      case h_1 err s' heq =>
        rw [heq] at hanswer
        exact hanswer
      case h_2 r s' _ heq =>
        rw [heq] at hanswer
        exact hanswer

theorem pollRead_uploading (h : Uploading env accepted s) (room : Nat) :
    Uploading env accepted (s.pollRead room).2 := by
  rw [pollRead]
  obtain ⟨s',hw,hup,_⟩ | ⟨r,s',hw,hr,hnone,hup,_⟩ := writePending_cases h
  · rw [hw]
    exact hup
  · obtain rfl | ⟨n,rfl⟩ := hr
    · rw [hw]
      exact readRest_uploading hup hnone room
    · rw [hw]
      exact readRest_uploading hup hnone room

/-! ## Writing -/

/-- What a write is answered with, and what has been accepted then. -/
def Writes (env : HeadEnv) (accepted : List Bytes) (buf : Bytes)
    (r : Poll (IoResult Nat) × RandomHeadStream) : Prop :=
  (r.1 = .pending ∧ Uploading env accepted r.2) ∨
    ∃ n, r.1 = .ready (.ok n) ∧ Uploading env (accepted ++ [buf.take n]) r.2

theorem inner_write {sink : Sink UInt8} (hw : sink.Willing) (buf : Bytes) :
    (sink.pollWrite buf).2.Willing ∧
    (((sink.pollWrite buf).1 = .pending ∧ (sink.pollWrite buf).2.sent = sink.sent) ∨
      ∃ n, (sink.pollWrite buf).1 = .ready (.ok n) ∧
        (sink.pollWrite buf).2.sent = sink.sent ++ buf.take n ∧ sink.burst ≠ 0) := by
  obtain ⟨answers,sent⟩ := sink
  cases answers with
  | nil => exact ⟨hw, .inl ⟨rfl, rfl⟩⟩
  | cons a as =>
    have hrest : ∀ sent' : Bytes, (⟨as, sent'⟩ : Sink UInt8).Willing := fun _ a ha =>
      hw a (List.mem_cons_of_mem _ ha)
    obtain rfl | ⟨q,rfl⟩ := hw a List.mem_cons_self
    · exact ⟨hrest sent, .inl ⟨rfl, rfl⟩⟩
    · refine ⟨hrest _, .inr ⟨min (q + 1) buf.length, rfl, ?_, ?_⟩⟩
      · exact congrArg (sent ++ ·) List.take_eq_take_min
      · rw [Sink.burst, burst]
        omega

theorem writeThrough_writes (h : Uploading env accepted s) (hp : s.pendingWrite = none) (buf : Bytes)
    (hfits : HeadFits env s buf) : Writes env accepted buf (s.writeThrough env buf) := by
  rw [writeThrough]
  split
  case isTrue hanswered =>
    obtain ⟨hwilling,hwrite⟩ := inner_write h.willing buf
    obtain ⟨hr,hsent⟩ | ⟨n,hr,hsent,hburst⟩ := hwrite
    · refine .inl ⟨hr, hwilling, h.answered, ?_⟩
      cases h.stage with
      | fresh h0 hempty hnone hbuf hacc => exact .fresh h0 (hsent.trans hempty) hnone hbuf hacc
      | sent h1 hcat =>
        rw [← hsent] at hcat
        exact .sent h1 hcat
    · refine .inr ⟨n, hr, hwilling, h.answered, ?_⟩
      cases h.stage with
      | fresh h0 =>
        have hzero := hfits h0
        rw [if_pos hanswered] at hzero
        exact absurd hzero hburst
      | sent h1 hcat =>
        refine .sent h1 ?_
        have hbuf := (h.answered hanswered).2
        rw [rest_none hp, hbuf, List.append_nil, List.append_nil] at hcat
        rw [List.flatten_append, List.flatten_singleton, ← List.append_assoc, ← hcat]
        change (s.sink.pollWrite buf).2.sent ++ s.rest ++ s.bufferedPayload = _
        rw [rest_none hp, hbuf, List.append_nil, List.append_nil, hsent]
  case isFalse hwaiting =>
    have hanswered : s.receivedResponse = true →
        s.flushedPayload = true ∧ s.bufferedPayload ++ buf = [] := fun hr => absurd hr hwaiting
    cases h.stage with
    | sent h1 hcat =>
      rw [if_pos h1]
      refine .inr ⟨buf.length, rfl, h.willing, hanswered, .sent h1 ?_⟩
      rw [List.take_length, List.flatten_append, List.flatten_singleton]
      change s.sink.sent ++ s.rest ++ (s.bufferedPayload ++ buf) = _
      rw [← List.append_assoc, hcat, List.append_assoc]
    | fresh h0 hempty _ hbuf hacc =>
      rw [h0, if_neg Bool.false_ne_true]
      have hhead := hfits h0
      rw [if_neg hwaiting] at hhead
      obtain ⟨sink,hr,hsent,hw,_⟩ | ⟨p',sink,hr,_,hsent,hw,hburst⟩ :=
        resume_willing (PendingWrite.new (randomHeadPacket env) buf.length) h.willing
      · refine .inr ⟨buf.length, by rw [hr]; rfl, ?_⟩
        rw [hr]
        refine ⟨hw, hanswered, .sent rfl ?_⟩
        rw [hempty, List.nil_append, new_rest] at hsent
        change sink.sent ++ [] ++ (s.bufferedPayload ++ buf) = _
        rw [hsent, hbuf, hacc, List.append_nil, List.take_length]
        exact congrArg (_ ++ ·) List.flatten_singleton.symm
      · obtain rfl | hle := hhead
        · refine .inl ⟨by rw [hr], ?_⟩
          rw [hr]
          refine ⟨hw, hanswered, .sent rfl ?_⟩
          rw [hempty, List.nil_append, new_rest] at hsent
          change sink.sent ++ p'.rest ++ (s.bufferedPayload ++ []) = _
          rw [hsent, hbuf, hacc]
          rfl
        · rw [new_rest] at hburst
          exact absurd hle (Nat.not_le.mpr hburst)

theorem pollWrite_writes (h : Uploading env accepted s) (buf : Bytes) (hfits : HeadFits env s buf) :
    Writes env accepted buf (s.pollWrite env buf) := by
  -- the payload has been flushed with the answer
  have hrest : ∀ s', Uploading env accepted s' → s'.writeRest env buf = s'.writeThrough env buf := by
    intro s' hup
    rw [writeRest, if_neg]
    rintro ⟨hanswered,hflushed⟩
    rw [(hup.answered hanswered).1] at hflushed
    cases hflushed
  have hkept : ∀ s', s' = s ∨ s'.sentHeader = true → HeadFits env s' buf := by
    intro s' hs
    obtain rfl | h1 := hs
    · exact hfits
    · intro h0
      rw [h1] at h0
      cases h0
  rw [pollWrite]
  obtain ⟨s',hw,hup,_⟩ | ⟨r,s',hw,hr,hnone,hup,hs⟩ := writePending_cases h
  · rw [hw]
    exact .inl ⟨rfl, hup⟩
  · obtain rfl | ⟨n,rfl⟩ := hr
    · rw [hw]
      dsimp only
      rw [hrest s' hup]
      exact writeThrough_writes hup hnone buf (hkept s' hs)
    · rw [hw]
      dsimp only
      rw [hrest s' hup]
      exact writeThrough_writes hup hnone buf (hkept s' hs)

theorem Writes.settle {buf : Bytes} {r : Poll (IoResult Nat) × RandomHeadStream} {session : Session}
    (h : Writes env session.accepted buf r) :
    Uploading env (session.settle buf r).accepted (session.settle buf r).stream := by
  obtain ⟨answer,s'⟩ := r
  obtain ⟨hr,hup⟩ | ⟨n,hr,hup⟩ := h
  · cases hr
    exact hup
  · cases hr
    exact hup

theorem Uploading.exact {session : Session} (h : Uploading env session.accepted session.stream) :
    UploadExact env session := by
  cases h.stage with
  | fresh _ hsent _ _ hacc =>
    refine ⟨?_, fun _ _ hne => absurd hacc hne⟩
    rw [hsent]
    exact List.nil_prefix
  | sent _ hcat =>
    refine ⟨?_, fun hanswered hp _ => ?_⟩
    · rw [← hcat, List.append_assoc]
      exact List.prefix_append ..
    · rw [rest_none hp, (h.answered hanswered).2, List.append_nil, List.append_nil] at hcat
      exact hcat

/-- The upload is exactly once in every run in which the packet goes out with the write that
begins it, before an answer is read. -/
theorem random_head_upload_exact (env : HeadEnv) (source : Source UInt8) (answers : List WriteAnswer)
    (hw : (⟨answers, []⟩ : Sink UInt8).Willing) (session : Session)
    (h : Runs env (HeadFits env) (new source ⟨answers, []⟩) session) : UploadExact env session := by
  refine Uploading.exact ?_
  induction h with
  | start => exact ⟨hw, fun h => absurd h Bool.false_ne_true, .fresh rfl rfl rfl rfl rfl⟩
  | write buf _ _ hfits ih => exact (pollWrite_writes ih buf hfits).settle
  | read room _ ih => exact pollRead_uploading ih room

/-- Four zeros and their checksum. -/
def zeroHead : HeadEnv := ⟨0, fun _ => 0, fun _ => 0x2144df1c⟩

/-- A payload is kept back, flushed in two parts behind the answer, and another one follows. -/
theorem random_head_upload_exact_flush :
    UploadExact zeroHead (((readStep 16 (readStep 16 ((WriteSession.start (new [.segment 1 [2]]
      ⟨[.accept 8, .accept 1, .pending, .accept 9, .accept 1], []⟩)).write
        (pollWrite zeroHead) [5, 6, 7]))).write (pollWrite zeroHead) [8, 9]).write
          (pollWrite zeroHead) [9]) := by
  refine random_head_upload_exact zeroHead [.segment 1 [2]]
    [.accept 8, .accept 1, .pending, .accept 9, .accept 1] (by simp [Sink.Willing]) _
    (.write [9] (.write [8, 9] (.read 16 (.read 16 (.write [5, 6, 7] .start ?_ ?_))) ?_ ?_) ?_ ?_)
  all_goals decide +kernel

/-- The packet stalls, the write is retried, and the answer is read. -/
def retriedHead : Session :=
  readStep 16 (((WriteSession.start (new [.segment 1 [2]]
    ⟨[.accept 3, .pending, .accept 9, .accept 9], []⟩)).write (pollWrite zeroHead) [5]).write
      (pollWrite zeroHead) [5])

/-- The answer is read before the first write. -/
def earlyAnswer : Session :=
  (readStep 16 (WriteSession.start (new [.segment 1 [2]] ⟨[.accept 9], []⟩))).write
    (pollWrite zeroHead) [5]

/-- A retried first write is accepted once and sent twice, and behind an early answer no packet
is sent at all. -/
theorem random_head_repeats_payload :
    (¬ ∀ session, Runs zeroHead (fun _ _ => True) (new [.segment 1 [2]]
        ⟨[.accept 3, .pending, .accept 9, .accept 9], []⟩) session → UploadExact zeroHead session) ∧
    ¬ ∀ session, Runs zeroHead (fun _ _ => True) (new [.segment 1 [2]] ⟨[.accept 9], []⟩) session →
      UploadExact zeroHead session := by
  constructor
  · intro h
    have hrun := h retriedHead (.read 16 (.write [5] (.write [5] .start (by decide +kernel) trivial)
      (by decide +kernel) trivial))
    exact absurd hrun.1 (by decide +kernel)
  · intro h
    have hrun := h earlyAnswer (.write [5] (.read 16 .start) (by decide +kernel) trivial)
    exact absurd hrun.1 (by decide +kernel)

end RandomHeadStream
end AtlasKernel.Shadowsocks
