import AtlasKernel.Lib.Keystream
import AtlasKernel.Shadowsocks.PendingWrite

/-! The write half of the legacy stream-cipher wrapper. The cipher is any
`Keystream`. Source: `shadowsocks/legacy.rs`. -/
namespace AtlasKernel.Shadowsocks
open AtlasKernel.Lib
variable {κ : Type*}

structure NeonLegacyCryptoStream (κ : Type*) where
  inner : Sink UInt8
  writeIv : Bytes
  sentIv : Bool
  encryptor : κ
  pendingWrite : Option PendingWrite
deriving DecidableEq, Repr

namespace NeonLegacyCryptoStream

def new (inner : Sink UInt8) (writeIv : Bytes) (encryptor : κ) : NeonLegacyCryptoStream κ :=
  ⟨inner, writeIv, false, encryptor, none⟩

/-- The IV goes out in front of the first ciphertext. -/
def header (s : NeonLegacyCryptoStream κ) : Bytes := if s.sentIv then [] else s.writeIv

/-- `poll_write_encrypted` from the allocation of `out` on. -/
def encryptAndSend (cipher : Keystream κ UInt8) (s : NeonLegacyCryptoStream κ) (buf : Bytes) :
    Poll (IoResult Nat) × NeonLegacyCryptoStream κ :=
  let out := s.header ++ cipher.output s.encryptor buf
  let s := { s with sentIv := true, encryptor := cipher.after s.encryptor buf }
  match (PendingWrite.new out buf.length).resume s.inner with
  | (.ready (.ok _), p, inner) =>
    (.ready (.ok buf.length), { s with inner := inner, pendingWrite := p })
  | (.ready (.error err), p, inner) =>
    (.ready (.error err), { s with inner := inner, pendingWrite := p })
  | (.pending, p, inner) => (.pending, { s with inner := inner, pendingWrite := p })

def pollWriteEncrypted (cipher : Keystream κ UInt8) (s : NeonLegacyCryptoStream κ) (buf : Bytes) :
    Poll (IoResult Nat) × NeonLegacyCryptoStream κ :=
  match s.pendingWrite with
  | none => encryptAndSend cipher s buf
  | some pending =>
    match pending.resume s.inner with
    -- the length the pending bytes stand for is dropped here, and `buf` is encrypted again
    | (.ready (.ok _), p, inner) =>
      encryptAndSend cipher { s with inner := inner, pendingWrite := p } buf
    | (.ready (.error err), p, inner) =>
      (.ready (.error err), { s with inner := inner, pendingWrite := p })
    | (.pending, p, inner) => (.pending, { s with inner := inner, pendingWrite := p })

/-- The intended wire image: the IV, then one keystream over the whole payload. -/
def wire (cipher : Keystream κ UInt8) (k₀ : κ) (iv payload : Bytes) : Bytes :=
  iv ++ cipher.output k₀ payload

/-- Nothing pending, and the inner stream holds the image of `payload`. -/
structure Clean (cipher : Keystream κ UInt8) (k₀ : κ) (iv : Bytes)
    (s : NeonLegacyCryptoStream κ) (payload : Bytes) : Prop where
  idle : s.pendingWrite = none
  position : s.encryptor = cipher.after k₀ payload
  image : s.inner.sent ++ s.header = wire cipher k₀ iv payload

/-- What is pending completes the image of `payload`. -/
structure Underway (cipher : Keystream κ UInt8) (k₀ : κ) (iv : Bytes)
    (s : NeonLegacyCryptoStream κ) (payload : Bytes) (p : PendingWrite) : Prop where
  kept : s.pendingWrite = some p
  started : s.sentIv = true
  position : s.encryptor = cipher.after k₀ payload
  image : s.inner.sent ++ p.rest = wire cipher k₀ iv payload

def Inv (cipher : Keystream κ UInt8) (k₀ : κ) (iv : Bytes)
    (s : WriteSession (NeonLegacyCryptoStream κ) UInt8) : Prop :=
  match s.caller with
  | .fresh => Clean cipher k₀ iv s.stream s.accepted.flatten
  | .acked => Clean cipher k₀ iv s.stream s.accepted.flatten ∧ s.stream.sentIv = true
  | .retrying buf => ∃ p, Underway cipher k₀ iv s.stream (s.accepted.flatten ++ buf) p
  | .failed buf _ => ∃ lost, s.stream.inner.sent ++ lost =
      wire cipher k₀ iv (s.accepted.flatten ++ buf)

variable {cipher : Keystream κ UInt8} {k₀ : κ} {iv : Bytes}

theorem wire_append (payload buf : Bytes) :
    wire cipher k₀ iv (payload ++ buf) =
      wire cipher k₀ iv payload ++ cipher.output (cipher.after k₀ payload) buf := by
  simp [wire, output_append]

/-- Encrypting from a clean state settles the call as the invariant says. -/
theorem encryptAndSend_inv {st : NeonLegacyCryptoStream κ} {acc : List Bytes} {c : Caller UInt8}
    (h : Clean cipher k₀ iv st acc.flatten) (buf : Bytes) (prev : NeonLegacyCryptoStream κ) :
    Inv cipher k₀ iv
      ((⟨prev, acc, c⟩ : WriteSession _ UInt8).settle buf (encryptAndSend cipher st buf)) := by
  obtain ⟨_,hk,hi⟩ := h
  have himg : st.inner.sent ++ (st.header ++ cipher.output st.encryptor buf) =
      wire cipher k₀ iv (acc.flatten ++ buf) := by
    rw [wire_append, ← List.append_assoc, hi, hk]
  have hpos : cipher.after st.encryptor buf = cipher.after k₀ (acc.flatten ++ buf) := by
    rw [hk, after_append]
  rw [encryptAndSend]
  rcases resume_cases (PendingWrite.new (st.header ++ cipher.output st.encryptor buf) buf.length)
    st.inner with ⟨s',hr,hs,_⟩ | ⟨p,s',hr,_,hs,_⟩ | ⟨e,s',lost,hr,hs,_⟩ <;>
    simp only [hr, WriteSession.settle, Inv]
  · refine ⟨⟨rfl, ?_, ?_⟩, trivial⟩
    · simpa using hpos
    · simpa [header, hs] using himg
  · exact ⟨p, rfl, rfl, hpos, by simpa [hs] using himg⟩
  · exact ⟨lost, by simpa [hs] using himg⟩

/-- A call that finds ciphertext pending leaves it pending, or has nothing to add. -/
def NoRepeat (s : NeonLegacyCryptoStream κ) (buf : Bytes) : Prop :=
  buf = [] ∨ ∀ p, s.pendingWrite = some p → s.inner.burst < p.rest.length

instance (s : NeonLegacyCryptoStream κ) (buf : Bytes) : Decidable (NoRepeat s buf) :=
  inferInstanceAs (Decidable (buf = [] ∨ ∀ p ∈ s.pendingWrite, s.inner.burst < p.rest.length))

theorem pollWriteEncrypted_inv (s : WriteSession (NeonLegacyCryptoStream κ) UInt8) (buf : Bytes)
    (h : Inv cipher k₀ iv s) (hm : s.caller.mayWrite buf) (hc : NoRepeat s.stream buf) :
    Inv cipher k₀ iv (s.write (pollWriteEncrypted cipher) buf) := by
  rw [WriteSession.write]
  obtain ⟨st,acc,caller⟩ := s
  cases caller with
  | fresh =>
    have hi : Clean cipher k₀ iv st acc.flatten := h
    simp only [pollWriteEncrypted, hi.idle]
    exact encryptAndSend_inv hi buf st
  | acked =>
    have hi : Clean cipher k₀ iv st acc.flatten := h.1
    simp only [pollWriteEncrypted, hi.idle]
    exact encryptAndSend_inv hi buf st
  | retrying b =>
    obtain rfl : buf = b := hm
    obtain ⟨p,hp,hsent,hk,hi⟩ : ∃ p, Underway cipher k₀ iv st (acc.flatten ++ buf) p := h
    simp only [pollWriteEncrypted, hp]
    rcases resume_cases p st.inner with ⟨s',hr,hs,hb⟩ | ⟨p',s',hr,_,hs,_⟩ | ⟨e,s',lost,hr,hs,_⟩
    · -- the pending bytes are out, so the buffer is empty and there is nothing to repeat
      have hnil : buf = [] := hc.resolve_right fun hlt => Nat.not_lt.mpr hb (hlt p hp)
      subst hnil
      simp only [hr]
      have hclean : Clean cipher k₀ iv { st with inner := s', pendingWrite := none }
          acc.flatten :=
        ⟨rfl, by simpa using hk, by simpa [header, hsent, hs] using hi⟩
      exact encryptAndSend_inv hclean [] st
    · simp only [hr, WriteSession.settle, Inv]
      exact ⟨p', rfl, hsent, hk, by rw [← hi, ← hs]⟩
    · simp only [hr, WriteSession.settle, Inv]
      exact ⟨lost, by rw [← hi, ← hs]⟩
  | failed b e => exact absurd hm id

/-- Exactly-once encryption: the inner stream holds a prefix of the image of what
was accepted and is being retried. After `Ready` it holds the whole image, and the
keystream has moved past each accepted byte once. -/
def ExactlyOnce (cipher : Keystream κ UInt8) (k₀ : κ) (iv : Bytes)
    (s : WriteSession (NeonLegacyCryptoStream κ) UInt8) : Prop :=
  s.stream.inner.sent <+: wire cipher k₀ iv (s.accepted.flatten ++ s.caller.inFlight) ∧
  (s.caller = .acked → s.stream.inner.sent = wire cipher k₀ iv s.accepted.flatten ∧
    s.stream.encryptor = cipher.after k₀ s.accepted.flatten)

theorem Inv.exactlyOnce {s : WriteSession (NeonLegacyCryptoStream κ) UInt8}
    (h : Inv cipher k₀ iv s) : ExactlyOnce cipher k₀ iv s := by
  obtain ⟨st,acc,caller⟩ := s
  cases caller with
  | fresh =>
    have hi : Clean cipher k₀ iv st acc.flatten := h
    exact ⟨⟨st.header, by simpa [Caller.inFlight] using hi.image⟩, nofun⟩
  | acked =>
    obtain ⟨hi,hsent⟩ : Clean cipher k₀ iv st acc.flatten ∧ st.sentIv = true := h
    have himg : st.inner.sent = wire cipher k₀ iv acc.flatten := by
      simpa [header, hsent] using hi.image
    exact ⟨⟨[], by simpa [Caller.inFlight] using himg⟩, fun _ => ⟨himg, hi.position⟩⟩
  | retrying b =>
    obtain ⟨p,hp⟩ : ∃ p, Underway cipher k₀ iv st (acc.flatten ++ b) p := h
    exact ⟨⟨p.rest, hp.image⟩, nofun⟩
  | failed b e => exact ⟨h, nofun⟩

/-- In every run whose retries do not let pending ciphertext out in the same call,
every byte is encrypted and sent once. -/
theorem legacy_write_exactly_once (cipher : Keystream κ UInt8) (k₀ : κ) (iv : Bytes)
    (answers : List WriteAnswer) (s : WriteSession (NeonLegacyCryptoStream κ) UInt8)
    (h : Writes (pollWriteEncrypted cipher) NoRepeat (new ⟨answers, []⟩ iv k₀) s) :
    ExactlyOnce cipher k₀ iv s := by
  refine (h.invariant (Inv cipher k₀ iv) ?_ pollWriteEncrypted_inv).exactlyOnce
  exact ⟨rfl, rfl, by simp [WriteSession.start, new, header, wire]⟩

/-- A keystream that counts upwards. -/
def counter : Keystream UInt8 UInt8 := ⟨fun k b => (b ^^^ k, k+1)⟩

theorem legacy_write_exactly_once_retried :
    ExactlyOnce counter 0 [9]
      ((((WriteSession.start (new ⟨[.accept 1, .accept 2, .accept 1, .pending, .accept 1], []⟩
        [9] 0)).write (pollWriteEncrypted counter) [5, 6]).write
          (pollWriteEncrypted counter) [7, 8, 6]).write (pollWriteEncrypted counter) [7, 8, 6]) := by
  refine legacy_write_exactly_once counter 0 [9]
    [.accept 1, .accept 2, .accept 1, .pending, .accept 1] _ ?_
  refine .write [7, 8, 6] (.write [7, 8, 6] (.write [5, 6] .start trivial ?_) ?_ ?_) ?_ ?_
  all_goals decide +kernel

/-- One short write, `Pending`, and the retry: the byte 5 is encrypted and sent twice. -/
theorem legacy_retry_encrypts_twice :
    ¬ ∀ s, Writes (pollWriteEncrypted counter) (fun _ _ => True)
      (new ⟨[.accept 1, .pending, .accept 9, .accept 9], []⟩ [9] 0) s →
      ExactlyOnce counter 0 [9] s := by
  intro h
  have hx := (h _ (.write [5] (.write [5] .start trivial trivial) (by decide +kernel) trivial)).2
  revert hx
  decide +kernel

end NeonLegacyCryptoStream
end AtlasKernel.Shadowsocks
