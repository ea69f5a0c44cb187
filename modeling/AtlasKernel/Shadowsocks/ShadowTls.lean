import AtlasKernel.Shadowsocks.PendingWrite

/-! The ShadowTLS write path: record framing with the version 2 tag or the version 3
running HMAC, and the poll loop that sends it. The HMAC is any incremental digest.
Source: `shadowsocks/transport.rs`. -/
namespace AtlasKernel.Shadowsocks
open AtlasKernel.Lib
variable {η : Type*}

/-- `Hmac<Sha1>` as the code uses it: absorb bytes, read the digest of a copy. -/
structure Hmac (η : Type*) where
  update : η → Bytes → η
  finalize : η → Vector UInt8 20

def Hmac.first4 (mac : Hmac η) (h : η) : Bytes := (mac.finalize h).toList.take 4

abbrev AuthTag := Vector UInt8 8

inductive ShadowTlsMode (η : Type*) where
  | plain
  | v2 (authTag : Option AuthTag)
  | v3 (hmacAdd hmacVerify : η) (hmacIgnore : Option η)
deriving DecidableEq, Repr

abbrev PendingShadowTlsWrite := PendingWrite

structure ShadowTlsStream (η : Type*) where
  inner : Sink UInt8
  mode : ShadowTlsMode η
  pendingWrite : Option PendingShadowTlsWrite
deriving DecidableEq, Repr

def maxRecordPayload : Nat := 16 * 1024

def shadowTlsPushRecord (authTag : Option AuthTag) (payload : Bytes) : Bytes :=
  let tag := (authTag.map Vector.toList).getD []
  [0x17, 0x03, 0x03] ++ be16 (tag.length + payload.length) ++ tag ++ payload

def shadowTlsPushV3Record (mac : Hmac η) (hmacAdd : η) (payload : Bytes) : Bytes × η :=
  let hmacAdd := mac.update hmacAdd payload
  let tag := mac.first4 hmacAdd
  ([0x17, 0x03, 0x03] ++ be16 (4 + payload.length) ++ tag ++ payload, mac.update hmacAdd tag)

/-- The record loop, on what is left of the payload. -/
def encodeLoop (mac : Hmac η) (mode : ShadowTlsMode η) (authTag : Option AuthTag)
    (payload : Bytes) : Bytes × ShadowTlsMode η :=
  if _h : payload = [] then ([], mode) else
    let reserve := (authTag.map fun _ => 8).getD 0
    let take := min (maxRecordPayload - reserve) payload.length
    match mode with
    | .v3 hmacAdd hmacVerify hmacIgnore =>
      let record := shadowTlsPushV3Record mac hmacAdd (payload.take take)
      let rest := encodeLoop mac (.v3 record.2 hmacVerify hmacIgnore) none (payload.drop take)
      (record.1 ++ rest.1, rest.2)
    | mode =>
      let rest := encodeLoop mac mode none (payload.drop take)
      (shadowTlsPushRecord authTag (payload.take take) ++ rest.1, rest.2)
termination_by payload.length
decreasing_by
  all_goals
    have hpos := List.length_pos_iff.mpr _h
    cases authTag <;> simp [maxRecordPayload] <;> omega

def shadowTlsEncodeRecords (mac : Hmac η) (payload : Bytes) (mode : ShadowTlsMode η) :
    Bytes × ShadowTlsMode η :=
  let taken := match mode with
    | .v2 authTag => authTag
    | _ => none
  let mode := match mode with
    | .v2 _ => .v2 none
    | mode => mode
  if payload = [] then (shadowTlsPushRecord taken [], mode)
  else encodeLoop mac mode taken payload

namespace ShadowTlsStream

/-- The write loop of `poll_write`, on the pending write it has taken out. -/
def sendPending (s : ShadowTlsStream η) (pending : PendingShadowTlsWrite) :
    Poll (IoResult Nat) × ShadowTlsStream η :=
  let r := writeLoop pending.data pending.offset s.inner
  let pending' := { pending with
    offset := r.2.1, within := (writeLoop_progress _ _ s.inner pending.within).bound }
  match r.1 with
  | .done => (.ready (.ok pending.originalLen), { s with inner := r.2.2, pendingWrite := none })
  -- `ready!` leaves the function with the taken write: it is not put back
  | .pending => (.pending, { s with inner := r.2.2, pendingWrite := none })
  | .failed err => (.ready (.error err), { s with inner := r.2.2, pendingWrite := none })
  | .zero => (.ready (.error ⟨.writeZero, "ShadowTLS stream closed while writing"⟩),
      { s with inner := r.2.2, pendingWrite := some pending' })

def pollWrite (mac : Hmac η) (s : ShadowTlsStream η) (buf : Bytes) :
    Poll (IoResult Nat) × ShadowTlsStream η :=
  match s.mode with
  | .plain =>
    let r := s.inner.pollWrite buf
    (r.1, { s with inner := r.2 })
  | mode =>
    match s.pendingWrite with
    | some pending => s.sendPending pending
    | none =>
      let records := shadowTlsEncodeRecords mac buf mode
      { s with mode := records.2 }.sendPending (.new records.1 buf.length)

/-- How a freshly framed write ends: all of it out in one burst, or stalled or failed
after a part of it. -/
theorem sendPending_cases (s : ShadowTlsStream η) (data : Bytes) (n : Nat) :
    (∃ inner, s.sendPending (.new data n) =
        (.ready (.ok n), { s with inner := inner, pendingWrite := none }) ∧
      inner.sent = s.inner.sent ++ data) ∨
    (∃ inner left, s.sendPending (.new data n) =
        (.pending, { s with inner := inner, pendingWrite := none }) ∧
      inner.sent ++ left = s.inner.sent ++ data ∧ s.inner.burst < data.length ∧
      (s.inner.burst = 0 → inner.sent = s.inner.sent)) ∨
    (∃ e inner p left, s.sendPending (.new data n) =
        (.ready (.error e), { s with inner := inner, pendingWrite := p }) ∧
      inner.sent ++ left = s.inner.sent ++ data) := by
  have hp := writeLoop_progress data 0 s.inner (Nat.zero_le _)
  have hd := writeLoop_done_iff data 0 s.inner
  have hz := writeLoop_burst_zero data 0 s.inner
  have hc := hp.conserve
  simp only [Nat.sub_zero, List.drop_zero] at hd hc
  rw [sendPending]
  simp only [PendingWrite.new]
  cases hr : (writeLoop data 0 s.inner).1 with
  | done =>
    refine .inl ⟨(writeLoop data 0 s.inner).2.2, rfl, ?_⟩
    rw [hp.done.mp hr] at hc
    simpa using hc
  | pending =>
    refine .inr (.inl ⟨(writeLoop data 0 s.inner).2.2, _, rfl, hc, ?_, fun h => ?_⟩)
    · exact Nat.lt_of_not_le fun h => by simp [hd.mpr h] at hr
    · rw [hz h, List.drop_zero] at hc
      exact List.append_cancel_right hc
  | failed e => exact .inr (.inr ⟨e, (writeLoop data 0 s.inner).2.2, none, _, rfl, hc⟩)
  | zero => exact .inr (.inr ⟨_, (writeLoop data 0 s.inner).2.2, _, _, rfl, hc⟩)

/-! ## The intended wire image -/

/-- One framing for each payload, in order, the mode handed from one to the next. -/
def frames (mac : Hmac η) : ShadowTlsMode η → List Bytes → Bytes × ShadowTlsMode η
  | mode, [] => ([], mode)
  | mode, payload :: payloads =>
    let records := shadowTlsEncodeRecords mac payload mode
    let rest := frames mac records.2 payloads
    (records.1 ++ rest.1, rest.2)

/-- Version 1 ends its handshake in plain mode and frames nothing. -/
def wire (mac : Hmac η) (mode : ShadowTlsMode η) (payloads : List Bytes) :
    Bytes × ShadowTlsMode η :=
  match mode with
  | .plain => (payloads.flatten, .plain)
  | mode => frames mac mode payloads

theorem encodeLoop_ne_plain (mac : Hmac η) (mode : ShadowTlsMode η) (tag : Option AuthTag)
    (payload : Bytes) (h : mode ≠ .plain) : (encodeLoop mac mode tag payload).2 ≠ .plain := by
  induction mode, tag, payload using encodeLoop.induct mac with
  | case1 mode tag => rw [encodeLoop]; simpa using h
  | case2 tag payload hne reserve take add ver ign record ih =>
    rw [encodeLoop, dif_neg hne]
    exact ih nofun
  | case3 tag payload hne reserve take mode hv ih =>
    rw [encodeLoop, dif_neg hne]
    cases mode with
    | v3 a b c => exact absurd rfl (hv a b c)
    | plain => exact ih h
    | v2 t => exact ih h

theorem encode_ne_plain (mac : Hmac η) (mode : ShadowTlsMode η) (payload : Bytes)
    (h : mode ≠ .plain) : (shadowTlsEncodeRecords mac payload mode).2 ≠ .plain := by
  cases mode with
  | plain => exact absurd rfl h
  | v2 tag =>
    simp only [shadowTlsEncodeRecords]
    split
    · nofun
    · exact encodeLoop_ne_plain mac _ _ payload nofun
  | v3 a b c =>
    simp only [shadowTlsEncodeRecords]
    split
    · nofun
    · exact encodeLoop_ne_plain mac _ _ payload nofun

theorem frames_snoc (mac : Hmac η) (mode : ShadowTlsMode η) (ps : List Bytes) (p : Bytes) :
    frames mac mode (ps ++ [p]) =
      ((frames mac mode ps).1 ++ (shadowTlsEncodeRecords mac p (frames mac mode ps).2).1,
        (shadowTlsEncodeRecords mac p (frames mac mode ps).2).2) := by
  induction ps generalizing mode with
  | nil => simp [frames]
  | cons q ps ih => simp [frames, ih]

theorem wire_framed (mac : Hmac η) {mode : ShadowTlsMode η} (h : mode ≠ .plain)
    (ps : List Bytes) : wire mac mode ps = frames mac mode ps := by
  cases mode with
  | plain => exact absurd rfl h
  | _ => rfl

theorem frames_ne_plain (mac : Hmac η) (mode : ShadowTlsMode η) (ps : List Bytes)
    (h : mode ≠ .plain) : (frames mac mode ps).2 ≠ .plain := by
  induction ps generalizing mode with
  | nil => exact h
  | cons p ps ih => exact ih _ (encode_ne_plain mac mode p h)

/-! ## Runs -/

/-- The inner stream holds one framing per accepted write, in order, and at most a
part of the next. After `Ready` it holds them all, and the mode has advanced once for
each. -/
def Faithful (mac : Hmac η) (m₀ : ShadowTlsMode η)
    (s : WriteSession (ShadowTlsStream η) UInt8) : Prop :=
  s.stream.inner.sent <+: (wire mac m₀ (s.accepted ++ s.caller.attempt)).1 ∧
  (s.caller = .acked → (s.stream.inner.sent, s.stream.mode) = wire mac m₀ s.accepted)

/-- The inner stream takes all records of this write in the call that framed them;
or it takes nothing, and framing has changed no state (version 2 after its tag,
version 3 on an empty write). -/
def NoStall (mac : Hmac η) (s : ShadowTlsStream η) (buf : Bytes) : Prop :=
  s.mode = .plain ∨
  (shadowTlsEncodeRecords mac buf s.mode).1.length ≤ s.inner.burst ∨
  (s.inner.burst = 0 ∧ (shadowTlsEncodeRecords mac buf s.mode).2 = s.mode)

instance [DecidableEq η] (mac : Hmac η) (s : ShadowTlsStream η) (buf : Bytes) :
    Decidable (NoStall mac s buf) :=
  inferInstanceAs (Decidable (_ ∨ _ ∨ _))

/-- Between calls nothing is pending, whatever the last answer was. -/
def Inv (mac : Hmac η) (m₀ : ShadowTlsMode η) (s : WriteSession (ShadowTlsStream η) UInt8) :
    Prop :=
  match s.caller with
  | .failed buf _ => s.stream.inner.sent <+: (wire mac m₀ (s.accepted ++ [buf])).1
  | _ => s.stream.pendingWrite = none ∧
      (s.stream.inner.sent, s.stream.mode) = wire mac m₀ s.accepted

theorem settle_plain {mac : Hmac η} {st : ShadowTlsStream η} {acc : List Bytes}
    {c : Caller UInt8} (hm : st.mode = .plain) (hp : st.pendingWrite = none)
    (hs : st.inner.sent = acc.flatten) (buf : Bytes) :
    Inv mac .plain ((⟨st, acc, c⟩ : WriteSession _ _).settle buf (st.pollWrite mac buf)) := by
  obtain ⟨hw,_⟩ := pollWrite_sent st.inner buf
  rw [pollWrite]
  simp only [hm]
  cases hr : (st.inner.pollWrite buf).1 with
  | pending =>
    simp only [hr, Poll.taken, List.take_zero, List.append_nil] at hw
    simp [Inv, WriteSession.settle, wire, hp, hw, hs]
  | ready r =>
    cases r with
    | error e =>
      simp only [hr, Poll.taken, List.take_zero, List.append_nil] at hw
      simp [Inv, WriteSession.settle, wire, hw, hs]
    | ok n =>
      simp only [hr, Poll.taken] at hw
      simp [Inv, WriteSession.settle, wire, hp, hw, hs]

theorem settle_framed {mac : Hmac η} {m₀ : ShadowTlsMode η} (hm : m₀ ≠ .plain)
    {st : ShadowTlsStream η} {acc : List Bytes} {c : Caller UInt8}
    (hp : st.pendingWrite = none) (hw : (st.inner.sent, st.mode) = frames mac m₀ acc)
    (buf : Bytes) (hc : NoStall mac st buf) :
    Inv mac m₀ ((⟨st, acc, c⟩ : WriteSession _ _).settle buf (st.pollWrite mac buf)) := by
  have hsent : st.inner.sent = (frames mac m₀ acc).1 := congrArg Prod.fst hw
  have hmode : st.mode = (frames mac m₀ acc).2 := congrArg Prod.snd hw
  have hne : st.mode ≠ .plain := by rw [hmode]; exact frames_ne_plain mac m₀ acc hm
  have hpoll : st.pollWrite mac buf =
      { st with mode := (shadowTlsEncodeRecords mac buf st.mode).2 }.sendPending
        (.new (shadowTlsEncodeRecords mac buf st.mode).1 buf.length) := by
    rw [pollWrite]
    split
    · exact absurd ‹_› hne
    · simp only [hp]
  have hsnoc := frames_snoc mac m₀ acc buf
  rw [← hsent, ← hmode] at hsnoc
  rw [hpoll]
  rcases sendPending_cases { st with mode := (shadowTlsEncodeRecords mac buf st.mode).2 }
    (shadowTlsEncodeRecords mac buf st.mode).1 buf.length with
    ⟨inner,hr,hs⟩ | ⟨inner,left,hr,hs,hb,hz⟩ | ⟨e,inner,p,left,hr,hs⟩
  · simp only [hr, WriteSession.settle, Inv, List.take_length, wire_framed mac hm, hsnoc]
    exact ⟨trivial, by rw [hs]⟩
  · -- stalled: the condition leaves only the case in which nothing has happened
    rcases hc with hpl | hlen | ⟨h0,hkeep⟩
    · exact absurd hpl hne
    · exact absurd hlen (Nat.not_le.mpr hb)
    · simp only [hr, WriteSession.settle, Inv, wire_framed mac hm, ← hw]
      exact ⟨trivial, by rw [hz h0, hkeep]⟩
  · simp only [hr, WriteSession.settle, Inv, wire_framed mac hm, hsnoc]
    exact ⟨left, hs⟩

theorem pollWrite_inv {mac : Hmac η} {m₀ : ShadowTlsMode η}
    (s : WriteSession (ShadowTlsStream η) UInt8) (buf : Bytes) (h : Inv mac m₀ s)
    (hm : s.caller.mayWrite buf) (hc : NoStall mac s.stream buf) :
    Inv mac m₀ (s.write (pollWrite mac) buf) := by
  obtain ⟨st,acc,c⟩ := s
  have hidle : st.pendingWrite = none ∧ (st.inner.sent, st.mode) = wire mac m₀ acc := by
    cases c with
    | failed => exact absurd hm id
    | _ => exact h
  rw [WriteSession.write]
  by_cases hp : m₀ = .plain
  · subst hp
    obtain ⟨hs,hmode⟩ := Prod.mk.inj hidle.2
    exact settle_plain hmode hidle.1 hs buf
  · exact settle_framed hp hidle.1 (by rw [hidle.2, wire_framed mac hp]) buf hc

theorem wire_prefix (mac : Hmac η) (m₀ : ShadowTlsMode η) (ps : List Bytes) (p : Bytes) :
    (wire mac m₀ ps).1 <+: (wire mac m₀ (ps ++ [p])).1 := by
  by_cases hp : m₀ = .plain
  · subst hp
    exact ⟨p, by simp [wire]⟩
  · rw [wire_framed mac hp, wire_framed mac hp, frames_snoc]
    exact List.prefix_append ..

theorem Inv.faithful {mac : Hmac η} {m₀ : ShadowTlsMode η}
    {s : WriteSession (ShadowTlsStream η) UInt8} (h : Inv mac m₀ s) : Faithful mac m₀ s := by
  obtain ⟨st,acc,c⟩ := s
  cases c with
  | failed buf e => exact ⟨h, nofun⟩
  | fresh | acked =>
    have hw : (st.inner.sent, st.mode) = wire mac m₀ acc := h.2
    exact ⟨⟨[], by simp [Caller.attempt, ← hw]⟩, fun _ => hw⟩
  | retrying buf =>
    have hw : (st.inner.sent, st.mode) = wire mac m₀ acc := h.2
    have hs : st.inner.sent = (wire mac m₀ acc).1 := congrArg Prod.fst hw
    exact ⟨hs ▸ wire_prefix mac m₀ acc buf, nofun⟩

/-- In every run without a stalled write, framing is faithful. -/
theorem shadow_tls_write_faithful (mac : Hmac η) (mode : ShadowTlsMode η)
    (answers : List WriteAnswer) (s : WriteSession (ShadowTlsStream η) UInt8)
    (h : Writes (pollWrite mac) (NoStall mac) ⟨⟨answers, []⟩, mode, none⟩ s) :
    Faithful mac mode s := by
  refine (h.invariant (Inv mac mode) ?_ pollWrite_inv).faithful
  refine ⟨rfl, ?_⟩
  cases mode <;> rfl

/-- A checksum in place of the HMAC. -/
def checksum : Hmac UInt8 := ⟨fun h bs => bs.foldl (· + ·) h, fun h => Vector.replicate 20 h⟩

theorem shadow_tls_write_faithful_v2 :
    Faithful checksum (.v2 (some (Vector.replicate 8 7)))
      ((((WriteSession.start ⟨⟨[.accept 5, .accept 90, .pending, .accept 90], []⟩,
        .v2 (some (Vector.replicate 8 7)), none⟩).write (pollWrite checksum) [1, 2]).write
          (pollWrite checksum) [3]).write (pollWrite checksum) [3]) := by
  refine shadow_tls_write_faithful checksum _ [.accept 5, .accept 90, .pending, .accept 90] _ ?_
  refine .write [3] (.write [3] (.write [1, 2] .start trivial ?_) ?_ ?_) ?_ ?_
  all_goals decide +kernel

/-- Three bytes of a record, `Pending`, and the retry: the record is cut short, and a
second one follows with the HMAC one step further. -/
theorem shadow_tls_retry_truncates :
    ¬ ∀ s, Writes (pollWrite checksum) (fun _ _ => True)
      ⟨⟨[.accept 3, .pending, .accept 90], []⟩, .v3 0 0 none, none⟩ s →
      Faithful checksum (.v3 0 0 none) s := by
  intro h
  have hx := (h _ (.write [1] (.write [1] .start trivial trivial) (by decide +kernel) trivial)).2
  revert hx
  decide +kernel

end ShadowTlsStream
end AtlasKernel.Shadowsocks
