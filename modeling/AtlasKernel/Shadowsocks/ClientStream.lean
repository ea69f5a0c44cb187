import AtlasKernel.Lib.FrameDecoder
import AtlasKernel.Lib.WriteThrough
import AtlasKernel.Shadowsocks.Legacy

/-! The streams of a Shadowsocks connection that stand on top of the encryption. The first write
has the target in front of it, and each write is encoded by itself. What is encrypted, and how,
is any stream one can write to. Source: `shadowsocks/client.rs`, `shadowsocks/ssr.rs`. -/
namespace AtlasKernel.Shadowsocks
open AtlasKernel.Lib FrameDecoder
variable {σ κ : Type*}

def PendingWrite.pollWriteAllShadowCrypto (inner : ByteWriter σ UInt8) (p : PendingWrite)
    (stream : σ) : Poll (IoResult Nat) × PendingWrite × σ :=
  let r := inner.writeThrough p.data p.offset stream
  let p' := { p with offset := r.2.1, within := inner.writeThrough_bound p.within stream }
  match r.1 with
  | .pending => (.pending, p', r.2.2)
  | .failed err => (.ready (.error err), p', r.2.2)
  | .zero => (.ready (.error ⟨.writeZero, "encrypted write returned zero"⟩), p', r.2.2)
  | .done => (.ready (.ok p.originalLen), p', r.2.2)

/-- `SsrClientStream` as far as it writes. The codec has its random draws in it. -/
structure SsrClientStream (κ σ : Type*) where
  inner : σ
  codec : κ
  target : Option Bytes
  pendingWrite : Option PendingWrite

namespace SsrClientStream

def new (inner : σ) (target : Bytes) (codec : κ) : SsrClientStream κ σ :=
  ⟨inner, codec, some target, none⟩

/-- `if let Some(mut pending) = self.pending_write.take()` -/
def resume (inner : ByteWriter σ UInt8) (s : SsrClientStream κ σ) (pending : PendingWrite) :
    Poll (IoResult Nat) × SsrClientStream κ σ :=
  match pending.pollWriteAllShadowCrypto inner s.inner with
  | (.pending, p, stream) => (.pending, { s with inner := stream, pendingWrite := some p })
  | (r, _, stream) => (r, { s with inner := stream, pendingWrite := none })

def pollWrite (inner : ByteWriter σ UInt8) (encode : κ → Bytes → IoResult Bytes × κ)
    (s : SsrClientStream κ σ) (buf : Bytes) : Poll (IoResult Nat) × SsrClientStream κ σ :=
  match s.pendingWrite with
  | some pending => s.resume inner pending
  | none =>
    let payload := s.target.getD [] ++ buf
    match encode s.codec payload with
    | (.error err, codec) => (.ready (.error err), { s with target := none, codec := codec })
    | (.ok encoded, codec) =>
      resume inner { s with target := none, codec := codec } (.new encoded buf.length)

end SsrClientStream

/-- `ShadowsocksClientStream` is the same without a codec. -/
abbrev ShadowsocksClientStream (σ : Type*) := SsrClientStream Unit σ

def ShadowsocksClientStream.pollWrite (inner : ByteWriter σ UInt8) (s : ShadowsocksClientStream σ)
    (buf : Bytes) : Poll (IoResult Nat) × ShadowsocksClientStream σ :=
  SsrClientStream.pollWrite inner (fun _ payload => (.ok payload, ())) s buf

namespace SsrClientStream
variable {inner : ByteWriter σ UInt8} {encode : κ → Bytes → IoResult Bytes × κ}
  {Cond : σ → Bytes → Prop} {st₀ : σ}

/-- What is written of a payload: nothing, if it cannot be encoded. -/
def written (encode : κ → Bytes → IoResult Bytes × κ) (codec : κ) (payload : Bytes) : Bytes × κ :=
  match encode codec payload with
  | (.ok encoded, codec') => (encoded, codec')
  | (.error _, codec') => ([], codec')

/-- What the inner stream is to be handed for these writes, and the codec behind them. -/
def image (encode : κ → Bytes → IoResult Bytes × κ) (codec : κ) (target : Bytes) :
    List Bytes → Bytes × κ
  | [] => ([], codec)
  | buf :: bufs => packAll (written encode) codec ((target ++ buf) :: bufs)

/-- The calls of the inner stream that a write makes. -/
def innerCalls (inner : ByteWriter σ UInt8) (encode : κ → Bytes → IoResult Bytes × κ)
    (s : SsrClientStream κ σ) (buf : Bytes) : List (σ × Bytes) :=
  match s.pendingWrite with
  | some pending => inner.writeCalls pending.data pending.offset s.inner
  | none => inner.writeCalls (written encode s.codec (s.target.getD [] ++ buf)).1 0 s.inner

/-- Each of them meets `Cond`. -/
def InnerMeets (inner : ByteWriter σ UInt8) (encode : κ → Bytes → IoResult Bytes × κ)
    (Cond : σ → Bytes → Prop) (s : SsrClientStream κ σ) (buf : Bytes) : Prop :=
  ∀ c ∈ innerCalls inner encode s buf, Cond c.1 c.2

instance [∀ st buf, Decidable (Cond st buf)] (s : SsrClientStream κ σ) (buf : Bytes) :
    Decidable (InnerMeets inner encode Cond s buf) :=
  inferInstanceAs (Decidable (∀ c ∈ innerCalls inner encode s buf, Cond c.1 c.2))

/-! ## The session of the inner stream -/

/-- Nothing is pending, and the inner stream has been handed the image of `bufs`. -/
structure Steady (encode : κ → Bytes → IoResult Bytes × κ) (codec : κ) (target : Bytes)
    (s : SsrClientStream κ σ) (t : WriteSession σ UInt8) (bufs : List Bytes) : Prop where
  inner : t.stream = s.inner
  free : s.pendingWrite = none
  idle : t.caller.idle
  handed : t.accepted.flatten = (image encode codec target bufs).1
  state : s.codec = (image encode codec target bufs).2
  front : s.target = if bufs = [] then some target else none

/-- What is pending completes the image of `bufs`, and is what the inner caller repeats. -/
structure Waiting (encode : κ → Bytes → IoResult Bytes × κ) (codec : κ) (target : Bytes)
    (s : SsrClientStream κ σ) (t : WriteSession σ UInt8) (bufs : List Bytes) (p : PendingWrite) :
    Prop where
  inner : t.stream = s.inner
  kept : s.pendingWrite = some p
  nonempty : p.rest ≠ []
  retrying : t.caller = .retrying p.rest
  handed : t.accepted.flatten ++ p.rest = (image encode codec target bufs).1
  state : s.codec = (image encode codec target bufs).2
  front : s.target = none

/-- How the inner session stands to the outer one. -/
def Follows (encode : κ → Bytes → IoResult Bytes × κ) (codec : κ) (target : Bytes)
    (s : WriteSession (SsrClientStream κ σ) UInt8) (t : WriteSession σ UInt8) : Prop :=
  match s.caller with
  | .fresh | .acked => Steady encode codec target s.stream t s.accepted
  | .retrying buf => ∃ p, Waiting encode codec target s.stream t (s.accepted ++ [buf]) p ∧
      p.originalLen = buf.length
  | .failed buf _ => t.stream = s.stream.inner ∧ t.accepted.flatten ++ t.caller.inFlight <+:
      (image encode codec target (s.accepted ++ [buf])).1

theorem Follows.stream {codec : κ} {target : Bytes}
    {s : WriteSession (SsrClientStream κ σ) UInt8} {t : WriteSession σ UInt8}
    (h : Follows encode codec target s t) : t.stream = s.stream.inner := by
  obtain ⟨st,acc,caller⟩ := s
  cases caller with
  | fresh | acked => exact Steady.inner h
  | retrying b =>
    obtain ⟨p,hwaiting,_⟩ := h
    exact hwaiting.inner
  | failed b e => exact h.1

theorem image_concat (codec : κ) (target : Bytes) (bufs : List Bytes) (buf : Bytes) :
    image encode codec target (bufs ++ [buf]) =
      ((image encode codec target bufs).1 ++ (written encode (image encode codec target bufs).2
          ((if bufs = [] then some target else none).getD [] ++ buf)).1,
        (written encode (image encode codec target bufs).2
          ((if bufs = [] then some target else none).getD [] ++ buf)).2) := by
  cases bufs with
  | nil => simp [image, packAll]
  | cons first bufs =>
    have hcons : (first :: bufs) ++ [buf] = first :: (bufs ++ [buf]) := rfl
    rw [hcons, image, image, ← List.cons_append, packAll_append]
    simp [packAll]

/-- How a write that is begun or resumed leaves the two sessions. -/
theorem resume_follows {codec : κ} {target : Bytes} {s : SsrClientStream κ σ}
    {t : WriteSession σ UInt8} {bufs : List Bytes} {p : PendingWrite}
    (h : Writes inner.poll Cond st₀ t) (hinner : t.stream = s.inner)
    (hmay : p.rest ≠ [] → t.caller.mayWrite p.rest) (hidle : p.rest = [] → t.caller.idle)
    (hhanded : t.accepted.flatten ++ p.rest = (image encode codec target bufs).1)
    (hstate : s.codec = (image encode codec target bufs).2) (hfront : s.target = none)
    (hbufs : bufs ≠ []) (hcalls : ∀ c ∈ inner.writeCalls p.data p.offset s.inner, Cond c.1 c.2) :
    ∃ t', Writes inner.poll Cond st₀ t' ∧
      ((∃ s', s.resume inner p = (.ready (.ok p.originalLen), s') ∧
          Steady encode codec target s' t' bufs) ∨
        (∃ s' p', s.resume inner p = (.pending, s') ∧ Waiting encode codec target s' t' bufs p' ∧
          p'.originalLen = p.originalLen) ∨
        ∃ e s', s.resume inner p = (.ready (.error e), s') ∧ t'.stream = s'.inner ∧
          t'.accepted.flatten ++ t'.caller.inFlight <+: (image encode codec target bufs).1) := by
  have hend : p.rest = [] ↔ p.offset = p.data.length := by
    rw [PendingWrite.rest, List.drop_eq_nil_iff]
    have hwithin := p.within
    omega
  rw [← hinner] at hcalls
  obtain ⟨t',ht',hstream,hthrough⟩ := inner.writeThrough_session h p.within hhanded
    (fun hlt => hmay (by rw [Ne, hend]; omega)) (fun hoff => hidle (hend.mpr hoff)) hcalls
  refine ⟨t',ht',?_⟩
  rw [hinner] at hstream hthrough
  obtain ⟨hbound,htaken,hdone,hpending,hzero,hfailed⟩ := hthrough
  rw [resume, PendingWrite.pollWriteAllShadowCrypto]
  cases hexit : (inner.writeThrough p.data p.offset s.inner).1 with
  | done =>
    obtain ⟨hoff,hcaller⟩ := hdone hexit
    rw [hoff, List.drop_length, List.append_nil] at htaken
    exact .inl ⟨_,rfl,hstream,rfl,hcaller,htaken,hstate,by rw [if_neg hbufs]; exact hfront⟩
  | pending =>
    obtain ⟨hlt,hcaller⟩ := hpending hexit
    refine .inr (.inl ⟨_,_,rfl,⟨hstream,rfl,?_,hcaller,htaken,hstate,hfront⟩,rfl⟩)
    intro hnil
    have hle := List.drop_eq_nil_iff.mp hnil
    dsimp only at hle
    omega
  | zero =>
    refine .inr (.inr ⟨_,_,rfl,hstream,?_⟩)
    rw [hzero hexit, ← htaken]
    exact (List.prefix_append_right_inj _).mpr List.nil_prefix
  | failed e =>
    refine .inr (.inr ⟨_,_,rfl,hstream,?_⟩)
    rw [hfailed e hexit, ← htaken]
    exact List.prefix_rfl

/-- A call with `buf` from a session that the inner one follows. -/
theorem pollWrite_follows {codec : κ} {target : Bytes}
    {s : WriteSession (SsrClientStream κ σ) UInt8} {t : WriteSession σ UInt8} {buf : Bytes}
    (h : Writes inner.poll Cond st₀ t) (hf : Follows encode codec target s t)
    (hmay : s.caller.mayWrite buf) (hcalls : InnerMeets inner encode Cond s.stream buf) :
    ∃ t', Writes inner.poll Cond st₀ t' ∧
      Follows encode codec target (s.write (pollWrite inner encode) buf) t' := by
  obtain ⟨st,acc,caller⟩ := s
  have hbufs : acc ++ [buf] ≠ [] := by simp
  -- what the outer caller sees of a resumed write
  have hsettle : ∀ {t' : WriteSession σ UInt8} {st' : SsrClientStream κ σ} {p : PendingWrite},
      p.originalLen = buf.length →
      ((∃ s', st'.resume inner p = (.ready (.ok p.originalLen), s') ∧
          Steady encode codec target s' t' (acc ++ [buf])) ∨
        (∃ s' p', st'.resume inner p = (.pending, s') ∧
          Waiting encode codec target s' t' (acc ++ [buf]) p' ∧ p'.originalLen = p.originalLen) ∨
        ∃ e s', st'.resume inner p = (.ready (.error e), s') ∧ t'.stream = s'.inner ∧
          t'.accepted.flatten ++ t'.caller.inFlight <+:
            (image encode codec target (acc ++ [buf])).1) →
      Follows encode codec target
        ((⟨st,acc,caller⟩ : WriteSession _ UInt8).settle buf (st'.resume inner p)) t' := by
    intro t' st' p hlen hcases
    obtain ⟨s',hr,hsteady⟩ | ⟨s',p',hr,hwaiting,hlen'⟩ | ⟨e,s',hr,hbegins⟩ := hcases
    · rw [hr, hlen]
      simpa [WriteSession.settle, Follows] using hsteady
    · rw [hr]
      exact ⟨p',hwaiting,hlen'.trans hlen⟩
    · rw [hr]
      exact hbegins
  have hfresh : Steady encode codec target st t acc → ∃ t', Writes inner.poll Cond st₀ t' ∧
      Follows encode codec target
        ((⟨st,acc,caller⟩ : WriteSession _ UInt8).write (pollWrite inner encode) buf) t' := by
    rintro ⟨hinner,hfree,hidle,hhanded,hstate,hfront⟩
    rw [InnerMeets, innerCalls, hfree] at hcalls
    rw [WriteSession.write, pollWrite, hfree]
    dsimp only at hcalls ⊢
    have himage := @image_concat _ encode codec target acc buf
    rw [← hfront, ← hstate] at himage
    cases hencode : encode st.codec (st.target.getD [] ++ buf) with
    | mk result codec' =>
      rw [written, hencode] at himage hcalls
      cases result with
      | error err =>
        have hbegins : t.accepted.flatten ++ t.caller.inFlight <+:
            (image encode codec target (acc ++ [buf])).1 := by
          rw [Caller.inFlight_of_idle hidle, hhanded, himage]
        exact ⟨t,h,hinner,hbegins⟩
      | ok encoded =>
        obtain ⟨t',ht',hcases⟩ := @resume_follows _ _ inner encode Cond st₀ codec target
          { st with target := none, codec := codec' } t (acc ++ [buf]) (.new encoded buf.length) h
          hinner (fun _ => Caller.mayWrite_of_idle hidle _) (fun _ => hidle)
          (by rw [hhanded, himage]; rfl) (by rw [himage]) rfl hbufs hcalls
        exact ⟨t',ht',hsettle rfl hcases⟩
  cases caller with
  | fresh => exact hfresh hf
  | acked => exact hfresh hf
  | retrying b =>
    obtain rfl : buf = b := hmay
    obtain ⟨p,⟨hinner,hkept,hnonempty,hretrying,hhanded,hstate,hfront⟩,hlen⟩ := hf
    rw [InnerMeets, innerCalls, hkept] at hcalls
    rw [WriteSession.write, pollWrite, hkept]
    obtain ⟨t',ht',hcases⟩ := resume_follows h hinner
      (fun _ => by rw [hretrying]; rfl) (fun hnil => absurd hnil hnonempty) hhanded hstate hfront
      hbufs hcalls
    exact ⟨t',ht',hsettle hlen hcases⟩
  | failed b e => exact absurd hmay id

/-- Whatever a writer does, the inner stream has a session of a writer that repeats itself as it
should, and is handed what it should be. -/
theorem writes_follow {codec : κ} {target : Bytes} {s : WriteSession (SsrClientStream κ σ) UInt8}
    (h : Writes (pollWrite inner encode) (InnerMeets inner encode Cond) (new st₀ target codec) s) :
    ∃ t, Writes inner.poll Cond st₀ t ∧ Follows encode codec target s t := by
  refine h.invariant (fun s => ∃ t, Writes inner.poll Cond st₀ t ∧ Follows encode codec target s t)
    ⟨.start st₀,.start,rfl,rfl,trivial,rfl,rfl,rfl⟩ ?_
  rintro s buf ⟨t,ht,hf⟩ hmay hcalls
  exact pollWrite_follows ht hf hmay hcalls

/-- The inner stream has been handed what it should be, as far as its caller has got: the images
of the writes that were accepted, and of the one that is underway a part. -/
def HandedOver (encode : κ → Bytes → IoResult Bytes × κ) (codec : κ) (target : Bytes)
    (s : WriteSession (SsrClientStream κ σ) UInt8) (t : WriteSession σ UInt8) : Prop :=
  t.stream = s.stream.inner ∧
  t.accepted.flatten ++ t.caller.inFlight <+:
    (image encode codec target (s.accepted ++ s.caller.attempt)).1 ∧
  (s.caller = .acked → t.caller.idle ∧
    t.accepted.flatten = (image encode codec target s.accepted).1)

theorem Follows.handedOver {codec : κ} {target : Bytes}
    {s : WriteSession (SsrClientStream κ σ) UInt8} {t : WriteSession σ UInt8}
    (h : Follows encode codec target s t) : HandedOver encode codec target s t := by
  refine ⟨h.stream,?_⟩
  obtain ⟨st,acc,caller⟩ := s
  cases caller with
  | fresh | acked =>
    obtain ⟨_,_,hidle,hhanded,_,_⟩ : Steady encode codec target st t acc := h
    rw [Caller.inFlight_of_idle hidle, hhanded]
    exact ⟨by simp [Caller.attempt],fun _ => ⟨hidle,rfl⟩⟩
  | retrying b =>
    obtain ⟨p,hwaiting,_⟩ := h
    have hhanded := hwaiting.handed
    dsimp only at hhanded
    rw [hwaiting.retrying, Caller.inFlight, hhanded]
    exact ⟨List.prefix_rfl,by rintro ⟨⟩⟩
  | failed b e => exact ⟨h.2,by rintro ⟨⟩⟩

/-- Whatever the stream below is and whatever it answers, it is written to as it should be: each
rest is repeated until it is taken, nothing is lost between two calls and nothing comes twice. -/
theorem client_stream_hands_over (inner : ByteWriter σ UInt8)
    (encode : κ → Bytes → IoResult Bytes × κ) (codec : κ) (target : Bytes) (st₀ : σ)
    (s : WriteSession (SsrClientStream κ σ) UInt8)
    (h : Writes (pollWrite inner encode) (fun _ _ => True) (new st₀ target codec) s) :
    ∃ t, Writes inner.poll (fun _ _ => True) st₀ t ∧ HandedOver encode codec target s t := by
  have hmeets : Writes (pollWrite inner encode) (InnerMeets inner encode (fun _ _ => True))
      (new st₀ target codec) s :=
    h.mono fun _ _ _ _ _ => trivial
  obtain ⟨t,ht,hf⟩ := writes_follow hmeets
  exact ⟨t,ht,hf.handedOver⟩

theorem client_stream_hands_over_retried :
    ∃ t, Writes Sink.writer.poll (fun _ _ => True) ⟨[.accept 2, .pending, .accept 9], []⟩ t ∧
      HandedOver (fun (k : Nat) payload => (.ok (payload ++ [7]), k+1)) 0 [1, 2]
        (((WriteSession.start (new ⟨[.accept 2, .pending, .accept 9], []⟩ [1, 2] 0)).write
          (pollWrite Sink.writer (fun (k : Nat) payload => (.ok (payload ++ [7]), k+1))) [5, 6]).write
          (pollWrite Sink.writer (fun (k : Nat) payload => (.ok (payload ++ [7]), k+1))) [5, 6]) t := by
  refine client_stream_hands_over _ _ _ _ _ _ ?_
  refine .write [5, 6] (.write [5, 6] .start trivial trivial) ?_ trivial
  decide +kernel

/-! ## Over a legacy cipher -/

variable {ι : Type*}

/-- The wire holds a prefix of the image of what was accepted and is being retried, encrypted
once; behind `Ready` all of it, if there is anything in it. -/
def OnWire (cipher : Keystream ι UInt8) (k₀ : ι) (iv : Bytes) (encode : κ → Bytes → IoResult Bytes × κ)
    (codec : κ) (target : Bytes)
    (s : WriteSession (SsrClientStream κ (NeonLegacyCryptoStream ι)) UInt8) : Prop :=
  s.stream.inner.inner.sent <+: NeonLegacyCryptoStream.wire cipher k₀ iv
    (image encode codec target (s.accepted ++ s.caller.attempt)).1 ∧
  (s.caller = .acked → (image encode codec target s.accepted).1 ≠ [] →
    s.stream.inner.inner.sent = NeonLegacyCryptoStream.wire cipher k₀ iv
      (image encode codec target s.accepted).1)

end SsrClientStream

theorem NeonLegacyCryptoStream.pollWriteEncrypted_ok {ι : Type*} {cipher : Keystream ι UInt8}
    {s s' : NeonLegacyCryptoStream ι} {buf : Bytes} {n : Nat}
    (h : pollWriteEncrypted cipher s buf = (.ready (.ok n), s')) : n = buf.length := by
  have hsend : ∀ s : NeonLegacyCryptoStream ι, encryptAndSend cipher s buf = (.ready (.ok n), s') →
      n = buf.length := by
    intro s hs
    rw [encryptAndSend] at hs
    split at hs
    · cases hs
      rfl
    · cases hs
    · cases hs
  rw [pollWriteEncrypted] at h
  split at h
  · exact hsend _ h
  · split at h
    · exact hsend _ h
    · cases h
    · cases h

theorem NeonLegacyCryptoStream.new_inv {ι : Type*} {cipher : Keystream ι UInt8} {k₀ : ι} {iv : Bytes}
    {answers : List WriteAnswer} : Inv cipher k₀ iv (.start (new ⟨answers, []⟩ iv k₀)) :=
  ⟨rfl,rfl,by simp [WriteSession.start, new, header, wire]⟩

def NeonLegacyCryptoStream.writer {ι : Type*} (cipher : Keystream ι UInt8) :
    ByteWriter (NeonLegacyCryptoStream ι) UInt8 where
  poll := pollWriteEncrypted cipher
  bounded h := Nat.le_of_eq (pollWriteEncrypted_ok h)

namespace SsrClientStream
variable {ι : Type*} {cipher : Keystream ι UInt8} {k₀ : ι} {iv : Bytes}
  {encode : κ → Bytes → IoResult Bytes × κ} {codec : κ} {target : Bytes}

theorem wire_front {front whole : Bytes} (h : front <+: whole) :
    NeonLegacyCryptoStream.wire cipher k₀ iv front <+:
      NeonLegacyCryptoStream.wire cipher k₀ iv whole := by
  obtain ⟨tail,rfl⟩ := h
  exact ⟨_,NeonLegacyCryptoStream.wire_append front tail |>.symm⟩

theorem HandedOver.onWire {s : WriteSession (SsrClientStream κ (NeonLegacyCryptoStream ι)) UInt8}
    {t : WriteSession (NeonLegacyCryptoStream ι) UInt8}
    (h : HandedOver encode codec target s t) (honce : NeonLegacyCryptoStream.ExactlyOnce cipher k₀ iv t)
    (hfresh : t.caller = .fresh → t.accepted = []) : OnWire cipher k₀ iv encode codec target s := by
  obtain ⟨hstream,hbegins,hacked⟩ := h
  obtain ⟨hsent,hall⟩ := honce
  rw [hstream] at hsent hall
  refine ⟨hsent.trans (wire_front hbegins),fun hcaller hne => ?_⟩
  obtain ⟨hidle,hhanded⟩ := hacked hcaller
  rw [← hhanded] at hne ⊢
  obtain ⟨ts,tacc,tcaller⟩ := t
  cases tcaller with
  | fresh =>
    -- the inner stream has been handed nothing at all
    rw [hfresh rfl] at hne
    exact absurd rfl hne
  | acked => exact (hall rfl).1
  | retrying b | failed b e => exact hidle.elim

/-- In every run whose calls of the encrypted stream do not let pending ciphertext out while
there is more to encrypt, the wire has the target once, and each write encoded and encrypted
once, in order. -/
theorem writes_onWire {answers : List WriteAnswer}
    {s : WriteSession (SsrClientStream κ (NeonLegacyCryptoStream ι)) UInt8}
    (h : Writes (pollWrite (NeonLegacyCryptoStream.writer cipher) encode)
      (InnerMeets (NeonLegacyCryptoStream.writer cipher) encode NeonLegacyCryptoStream.NoRepeat)
      (new (.new ⟨answers, []⟩ iv k₀) target codec) s) :
    OnWire cipher k₀ iv encode codec target s := by
  obtain ⟨t,ht,hf⟩ := writes_follow h
  have hinv := ht.invariant (NeonLegacyCryptoStream.Inv cipher k₀ iv) NeonLegacyCryptoStream.new_inv
    NeonLegacyCryptoStream.pollWriteEncrypted_inv
  exact hf.handedOver.onWire hinv.exactlyOnce ht.fresh

end SsrClientStream
end AtlasKernel.Shadowsocks
