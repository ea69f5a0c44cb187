import AtlasKernel.Shadowsocks.ClientReads
import AtlasKernel.Shadowsocks.ClientStream

/-! Two ends of a connection over a legacy cipher: what is written at one of them is read with the
read half at the other. A call of the encrypted stream that gets pending ciphertext out encrypts
its own bytes again, so in general a frame may come more than once. Source:
`shadowsocks/client.rs`, `shadowsocks/ssr.rs`, `shadowsocks/legacy.rs`. -/
namespace AtlasKernel.Shadowsocks
open AtlasKernel.Lib FrameDecoder
variable {ι κ δ : Type*}

/-- The buffers in order, each of them once or more often in a row. -/
inductive Repeats : List Bytes → Bytes → Prop where
  | nil : Repeats [] []
  | once {bufs log} (buf : Bytes) : Repeats bufs log → Repeats (bufs ++ [buf]) (log ++ buf)
  | again {bufs log} {buf : Bytes} : Repeats (bufs ++ [buf]) log →
      Repeats (bufs ++ [buf]) (log ++ buf)

theorem Repeats.of_nil {log : Bytes} (h : Repeats [] log) : log = [] := by
  generalize hbufs : ([] : List Bytes) = bufs at h
  cases h with
  | nil => rfl
  | once buf _ => simp at hbufs
  | again _ => simp at hbufs

namespace NeonLegacyCryptoStream
variable {cipher : Keystream ι UInt8} {k₀ : ι} {iv : Bytes}

/-- What holds of every session, whatever is pending. -/
def Logged (cipher : Keystream ι UInt8) (k₀ : ι) (iv : Bytes)
    (s : WriteSession (NeonLegacyCryptoStream ι) UInt8) : Prop :=
  ∃ log, Repeats (s.accepted ++ s.caller.attempt) log ∧
    match s.caller with
    | .fresh => Clean cipher k₀ iv s.stream log
    | .acked => Clean cipher k₀ iv s.stream log ∧ s.stream.sentIv = true
    | .retrying _ => ∃ p, Underway cipher k₀ iv s.stream log p
    | .failed _ _ => s.stream.inner.sent <+: wire cipher k₀ iv log

/-- Encrypting from a clean state adds the buffer to the log. -/
theorem encryptAndSend_logged {st : NeonLegacyCryptoStream ι} {acc : List Bytes} {c : Caller UInt8}
    {log buf : Bytes} (h : Clean cipher k₀ iv st log) (hlog : Repeats (acc ++ [buf]) (log ++ buf))
    (prev : NeonLegacyCryptoStream ι) :
    Logged cipher k₀ iv
      ((⟨prev, acc, c⟩ : WriteSession _ UInt8).settle buf (encryptAndSend cipher st buf)) := by
  obtain ⟨_,hk,hi⟩ := h
  have himg : st.inner.sent ++ (st.header ++ cipher.output st.encryptor buf) =
      wire cipher k₀ iv (log ++ buf) := by
    rw [wire_append, ← List.append_assoc, hi, hk]
  have hpos : cipher.after st.encryptor buf = cipher.after k₀ (log ++ buf) := by
    rw [hk, after_append]
  refine ⟨log ++ buf,?_⟩
  rw [encryptAndSend]
  rcases resume_cases (PendingWrite.new (st.header ++ cipher.output st.encryptor buf) buf.length)
    st.inner with ⟨s',hr,hs,_⟩ | ⟨p,s',hr,_,hs,_⟩ | ⟨e,s',lost,hr,hs,_⟩ <;>
    simp only [hr, WriteSession.settle]
  · refine ⟨by simpa [Caller.attempt] using hlog,⟨rfl,hpos,?_⟩,trivial⟩
    simpa [header, hs] using himg
  · exact ⟨hlog,p,rfl,rfl,hpos,by simpa [hs] using himg⟩
  · exact ⟨hlog,lost,by simpa [hs] using himg⟩

theorem pollWriteEncrypted_logged (s : WriteSession (NeonLegacyCryptoStream ι) UInt8) (buf : Bytes)
    (h : Logged cipher k₀ iv s) (hm : s.caller.mayWrite buf) :
    Logged cipher k₀ iv (s.write (pollWriteEncrypted cipher) buf) := by
  rw [WriteSession.write]
  obtain ⟨st,acc,caller⟩ := s
  obtain ⟨log,hlog,hcase⟩ := h
  cases caller with
  | fresh =>
    have hi : Clean cipher k₀ iv st log := hcase
    rw [Caller.attempt, List.append_nil] at hlog
    simp only [pollWriteEncrypted, hi.idle]
    exact encryptAndSend_logged hi (hlog.once buf) st
  | acked =>
    have hi : Clean cipher k₀ iv st log := hcase.1
    rw [Caller.attempt, List.append_nil] at hlog
    simp only [pollWriteEncrypted, hi.idle]
    exact encryptAndSend_logged hi (hlog.once buf) st
  | retrying b =>
    obtain rfl : buf = b := hm
    obtain ⟨p,hp,hsent,hk,hi⟩ := hcase
    dsimp only at hp hsent hk hi
    simp only [pollWriteEncrypted, hp]
    rcases resume_cases p st.inner with ⟨s',hr,hs,hb⟩ | ⟨p',s',hr,_,hs,_⟩ | ⟨e,s',lost,hr,hs,_⟩
    · simp only [hr]
      have hclean : Clean cipher k₀ iv { st with inner := s', pendingWrite := none } log :=
        ⟨rfl,hk,by simpa [header, hsent, hs] using hi⟩
      exact encryptAndSend_logged hclean (.again hlog) st
    · simp only [hr, WriteSession.settle]
      exact ⟨log,hlog,p',rfl,hsent,hk,by rw [← hi, ← hs]⟩
    · simp only [hr, WriteSession.settle]
      exact ⟨log,hlog,lost,by rw [← hi, ← hs]⟩
  | failed b e => exact absurd hm id

theorem logged {Cond : NeonLegacyCryptoStream ι → Bytes → Prop} {answers : List WriteAnswer}
    {s : WriteSession (NeonLegacyCryptoStream ι) UInt8}
    (h : Writes (pollWriteEncrypted cipher) Cond (new ⟨answers, []⟩ iv k₀) s) :
    Logged cipher k₀ iv s := by
  refine h.invariant (Logged cipher k₀ iv) ⟨[],.nil,rfl,rfl,?_⟩
    fun s buf hs hm _ => pollWriteEncrypted_logged s buf hs hm
  simp [WriteSession.start, new, header, wire]

/-- The wire holds a prefix of the image of the log; behind `Ready` all of it. -/
theorem Logged.wire {s : WriteSession (NeonLegacyCryptoStream ι) UInt8}
    (h : Logged cipher k₀ iv s) : ∃ log, Repeats (s.accepted ++ s.caller.attempt) log ∧
      s.stream.inner.sent <+: wire cipher k₀ iv log ∧
      (s.caller = .acked → s.stream.inner.sent = wire cipher k₀ iv log) := by
  obtain ⟨st,acc,caller⟩ := s
  obtain ⟨log,hlog,hcase⟩ := h
  refine ⟨log,hlog,?_⟩
  cases caller with
  | fresh =>
    have hi : Clean cipher k₀ iv st log := hcase
    exact ⟨⟨st.header,hi.image⟩,by rintro ⟨⟩⟩
  | acked =>
    obtain ⟨hi,hsent⟩ : Clean cipher k₀ iv st log ∧ st.sentIv = true := hcase
    have himg : st.inner.sent = NeonLegacyCryptoStream.wire cipher k₀ iv log := by
      simpa [header, hsent] using hi.image
    exact ⟨⟨[],by simpa using himg⟩,fun _ => himg⟩
  | retrying b =>
    obtain ⟨p,hp⟩ := hcase
    exact ⟨⟨p.rest,hp.image⟩,by rintro ⟨⟩⟩
  | failed b e => exact ⟨hcase,by rintro ⟨⟩⟩

end NeonLegacyCryptoStream

/-! ## The other end -/

/-- The decryptor with this IV undoes the encryptor. -/
structure Matches (cipher : Keystream ι UInt8) (k₀ : ι) (iv : Bytes) (m : LegacyMethod δ) : Prop where
  ivLen : iv.length = m.ivLen
  undoes : ∃ d, m.newDecryptor iv = .ok d ∧
    ∀ data, m.cipher.output d (cipher.output k₀ data) = data

theorem Matches.plain_wire {cipher : Keystream ι UInt8} {k₀ : ι} {iv : Bytes} {m : LegacyMethod δ}
    (h : Matches cipher k₀ iv m) (payload : Bytes) :
    LegacyReadHalf.plain m (NeonLegacyCryptoStream.wire cipher k₀ iv payload) = payload := by
  obtain ⟨hlen,d,hnew,hundo⟩ := h
  rw [LegacyReadHalf.plain, NeonLegacyCryptoStream.wire, if_neg (by rw [List.length_append]; omega),
    List.take_left' hlen, hnew, List.drop_left' hlen]
  exact hundo payload

/-- What is long enough starts with the IV of the other end. -/
theorem Matches.takes_iv {cipher : Keystream ι UInt8} {k₀ : ι} {iv : Bytes} {m : LegacyMethod δ}
    (h : Matches cipher k₀ iv m) {sent log : Bytes}
    (hsent : sent <+: NeonLegacyCryptoStream.wire cipher k₀ iv log) (hlong : m.ivLen ≤ sent.length)
    (err : String) : m.newDecryptor (sent.take m.ivLen) ≠ .error err := by
  obtain ⟨hlen,d,hgood,_⟩ := h
  obtain ⟨more,hmore⟩ := hsent
  have htake : sent.take m.ivLen = iv := by
    rw [← List.take_append_of_le_length hlong, hmore, NeonLegacyCryptoStream.wire,
      List.take_left' hlen]
  rw [htake, hgood]
  rintro ⟨⟩

/-- Counting upwards from the IV. -/
def countingMethod : LegacyMethod UInt8 :=
  ⟨.xor (fun k => (k, k+1)), 1, fun iv => .ok (iv.headD 0)⟩

theorem countingMethod_matches : Matches countingMethod.cipher 9 [9] countingMethod :=
  ⟨rfl,9,rfl,xor_output_output _ _⟩

namespace SsrClientStream
variable {cipher : Keystream ι UInt8} {k₀ : ι} {iv : Bytes} {m : LegacyMethod δ}
  {encode : κ → Bytes → IoResult Bytes × κ} {codec : κ} {target : Bytes}

/-- What arrives at the other end: the frames that were handed down, some of them perhaps more
than once, and at the end of a connection whose last write was accepted all of them. -/
def Arrives (encode : κ → Bytes → IoResult Bytes × κ) (codec : κ) (target : Bytes)
    (s : WriteSession (SsrClientStream κ (NeonLegacyCryptoStream ι)) UInt8)
    (t : ReadSession (LegacyReadHalf δ (Source UInt8)) UInt8) : Prop :=
  ∃ frames log, Repeats frames log ∧
    frames.flatten <+: (image encode codec target (s.accepted ++ s.caller.attempt)).1 ∧
    t.delivered <+: log ∧
    (s.caller = .acked → frames.flatten = (image encode codec target s.accepted).1 ∧
      (t.last = some (.ready (.ok [])) → t.delivered = log))

theorem attempt_flatten (c : Caller UInt8) : c.attempt.flatten = c.inFlight := by
  cases c with
  | fresh | acked => rfl
  | retrying b | failed b e => exact List.flatten_singleton

/-- A reader of what another end has sent. -/
theorem reads_sent {cipher : Keystream ι UInt8} {k₀ : ι} {iv : Bytes} {m : LegacyMethod δ}
    (hm : Matches cipher k₀ iv m) {log : Bytes} {src : Source UInt8} (hsrc : Flawless src)
    (hsent : sourceBytes src <+: NeonLegacyCryptoStream.wire cipher k₀ iv log)
    {t : ReadSession (LegacyReadHalf δ (Source UInt8)) UInt8}
    (ht : Reads (LegacyReadHalf.pollReadDecrypted Source.reader m) (.new src) t) :
    t.delivered <+: log ∧ t.failed = false ∧
      (sourceBytes src = NeonLegacyCryptoStream.wire cipher k₀ iv log →
        t.last = some (.ready (.ok [])) → t.delivered = log) := by
  obtain ⟨u,hu⟩ := LegacyReadHalf.reads_behind ht
  obtain ⟨hbegins,hend,herror⟩ := hu.source hsrc
  have hplain := @LegacyReadHalf.plain_prefix _ m _ _ hsent
  rw [hm.plain_wire] at hplain
  refine ⟨hbegins.trans hplain,?_,fun hall hlast => ?_⟩
  · cases hfailed : t.failed with
    | false => rfl
    | true =>
      obtain ⟨err,hlast⟩ := ReadSession.failed_iff.mp hfailed
      obtain ⟨hlong,hnew⟩ := herror err hlast
      exact absurd hnew (hm.takes_iv hsent hlong err.message)
  · rw [hend hlast, hall, hm.plain_wire]

def encodeVerifySimple : Unit → Bytes → IoResult Bytes × Unit :=
  fun _ payload => (.ok (Ssr.VerifySimpleCodec.encode payload), ())

theorem packAll_verifySimple (payloads : List Bytes) :
    (packAll (written encodeVerifySimple) () payloads).1 =
      payloads.flatMap Ssr.VerifySimpleCodec.encode := by
  induction payloads with
  | nil => rfl
  | cons payload payloads ih =>
    rw [packAll, List.flatMap_cons]
    exact congrArg (_ ++ ·) ih

/-- The target and what was written behind it. -/
def upload (target : Bytes) (bufs : List Bytes) : Bytes :=
  if bufs = [] then [] else target ++ bufs.flatten

/-- The image of the writes is decoded to what was to be uploaded. -/
theorem decodes_image (target : Bytes) (bufs : List Bytes) :
    (Ssr.VerifySimpleCodec.decoder.frames.run .new (image encodeVerifySimple () target bufs).1).fault =
      none ∧
    (Ssr.VerifySimpleCodec.decoder.frames.run .new (image encodeVerifySimple () target bufs).1).out =
      upload target bufs := by
  have hdecodes : ∀ payloads : List Bytes,
      (Ssr.VerifySimpleCodec.decoder.frames.run .new
        (payloads.flatMap Ssr.VerifySimpleCodec.encode)).fault = none ∧
      (Ssr.VerifySimpleCodec.decoder.frames.run .new
        (payloads.flatMap Ssr.VerifySimpleCodec.encode)).out = payloads.flatten := by
    intro payloads
    have htrip := @Ssr.VerifySimpleCodec.round_trip payloads
      [payloads.flatMap Ssr.VerifySimpleCodec.encode] List.flatten_singleton
    have hrun := (Ssr.SsrDecoder.decodes_iff (s := Ssr.VerifySimpleCodec.new) rfl
      (Ssr.VerifySimpleCodec.inspect_nil .new) _ _).mp htrip
    rw [List.nil_append, List.flatten_singleton] at hrun
    exact hrun
  cases bufs with
  | nil => exact hdecodes []
  | cons buf bufs =>
    rw [image, packAll_verifySimple, upload, if_neg (List.cons_ne_nil buf bufs), List.flatten_cons,
      ← List.append_assoc, ← List.flatten_cons]
    exact hdecodes _

/-- verify_simple over a legacy cipher, both halves: as long as no retry gets ciphertext out, the
other end reads the target and the writes, byte for byte, and never an error. -/
theorem tunnel_verify_simple (cipher : Keystream ι UInt8) (k₀ : ι) (iv : Bytes)
    (m : LegacyMethod δ) (hm : Matches cipher k₀ iv m) (target : Bytes) (answers : List WriteAnswer)
    (s : WriteSession (SsrClientStream Unit (NeonLegacyCryptoStream ι)) UInt8)
    (hs : Writes (pollWrite (NeonLegacyCryptoStream.writer cipher) encodeVerifySimple)
      (InnerMeets (NeonLegacyCryptoStream.writer cipher) encodeVerifySimple
        NeonLegacyCryptoStream.NoRepeat) (new (.new ⟨answers, []⟩ iv k₀) target ()) s)
    (src : Source UInt8) (hsrc : Flawless src) (hwire : sourceBytes src = s.stream.inner.inner.sent)
    (t : ReadSession (ReadHalf Ssr.VerifySimpleCodec (LegacyReadHalf δ (Source UInt8))) UInt8)
    (ht : Reads (pollRead (LegacyReadHalf.reader Source.reader m) Ssr.VerifySimpleCodec.decoder)
      ⟨.new src, (.new, []), []⟩ t) :
    t.failed = false ∧ t.delivered <+: upload target (s.accepted ++ s.caller.attempt) ∧
      (s.caller = .acked → t.last = some (.ready (.ok [])) →
        t.delivered = upload target s.accepted) := by
  obtain ⟨hsent,hall⟩ := writes_onWire hs
  obtain ⟨hdelivered,hend,herror⟩ := reads_get (m := m) rfl (Ssr.VerifySimpleCodec.inspect_nil .new)
    hsrc ht
  obtain ⟨hnone,hout⟩ := decodes_image target (s.accepted ++ s.caller.attempt)
  have hplain := @LegacyReadHalf.plain_prefix _ m _ _ hsent
  rw [hm.plain_wire, ← hwire] at hplain
  obtain ⟨hfront,hfaulted⟩ := @run_front _ Ssr.VerifySimpleCodec.decoder .new _ _ hplain
  rw [hout] at hfront
  refine ⟨?_,hdelivered.trans hfront,fun hcaller hlast => ?_⟩
  · cases hfailed : t.failed with
    | false => rfl
    | true =>
      obtain ⟨err,hlast⟩ := ReadSession.failed_iff.mp hfailed
      obtain hbad | ⟨hlong,hnew⟩ := herror err hlast
      · have hfault := (hfaulted err hbad).1
        rw [hnone] at hfault
        cases hfault
      · rw [hwire] at hlong hnew
        exact absurd hnew (hm.takes_iv hsent hlong err.message)
  · obtain ⟨hnone',hout'⟩ := decodes_image target s.accepted
    by_cases himage : (image encodeVerifySimple () target s.accepted).1 = []
    · -- then nothing was to be uploaded, and nothing has come
      have hnothing : upload target s.accepted = [] := by
        rw [← hout', himage, run_wait (Ssr.VerifySimpleCodec.inspect_nil .new)]
      rw [hcaller, Caller.attempt, List.append_nil, hnothing] at hfront
      rw [hnothing]
      exact List.prefix_nil.mp (hdelivered.trans hfront)
    · rw [(hend hlast).1, hwire, hall hcaller himage, hm.plain_wire, hout']

theorem tunnel_verify_simple_read :
    let s := (WriteSession.start (new (.new ⟨[.accept 3, .accept 9], []⟩ [9] 9) [1] ())).write
      (pollWrite (NeonLegacyCryptoStream.writer countingMethod.cipher) encodeVerifySimple) [5, 6]
    let read := pollRead (LegacyReadHalf.reader Source.reader countingMethod)
      Ssr.VerifySimpleCodec.decoder
    let t := (((ReadSession.start ⟨.new [.segment 9 [9, 3], .pending, .segment 10 [9, 11, 24, 15, 44, 17]],
      (.new, []), []⟩).read read 2).read read 2).read read 2
    t.failed = false ∧ t.delivered <+: upload [1] (s.accepted ++ s.caller.attempt) ∧
      (s.caller = .acked → t.last = some (.ready (.ok [])) → t.delivered = upload [1] s.accepted) := by
  intro s read t
  refine tunnel_verify_simple countingMethod.cipher 9 [9] countingMethod countingMethod_matches [1]
    [.accept 3, .accept 9] s ?_ [.segment 9 [9, 3], .pending, .segment 10 [9, 11, 24, 15, 44, 17]]
    ?_ ?_ t ?_
  · refine .write [5, 6] .start trivial ?_
    decide +kernel
  · exact fun err => by simp
  · decide +kernel
  · refine .read 2 (.read 2 (.read 2 .start rfl (by decide)) ?_ (by decide)) ?_ (by decide) <;>
    decide +kernel

end SsrClientStream
end AtlasKernel.Shadowsocks
