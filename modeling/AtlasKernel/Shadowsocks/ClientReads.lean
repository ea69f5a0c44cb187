import AtlasKernel.Lib.Keystream
import AtlasKernel.Lib.ReadThrough
import AtlasKernel.Shadowsocks.PendingWrite
import AtlasKernel.Shadowsocks.Ssr.Verify

/-! The read half of the legacy stream-cipher wrapper, and the stream above it that decodes the
frames of an SSR protocol. Both read through the stream below them, whatever that is. Source:
`shadowsocks/legacy.rs`, `shadowsocks/ssr.rs`. -/
namespace AtlasKernel.Shadowsocks
open AtlasKernel.Lib FrameDecoder
variable {σ κ : Type*}

theorem drainBuffer_eq (buffer : Bytes) (room : Nat) :
    drainBuffer buffer room = FramedReader.handOut buffer room := by
  simp only [drainBuffer, FramedReader.handOut]

/-- What `poll_read_decrypted` uses of `NeonLegacyCryptoStream`. -/
structure LegacyReadHalf (κ σ : Type*) where
  inner : σ
  decryptor : Option κ
  readIv : Bytes
  readBuffer : Bytes
deriving DecidableEq, Repr

/-- The method: how long its IV is, and the decryptor with an IV. -/
structure LegacyMethod (κ : Type*) where
  cipher : Keystream κ UInt8
  ivLen : Nat
  newDecryptor : Bytes → Except String κ

namespace LegacyReadHalf
variable (r : ByteReader σ UInt8) (m : LegacyMethod κ)

def new (inner : σ) : LegacyReadHalf κ σ := ⟨inner, none, [], []⟩

/-- `while self.decryptor.is_none()`. The scratch buffer has room for `need` bytes. -/
def ivLoop (s : LegacyReadHalf κ σ) : Option (Poll (IoResult Bytes)) × LegacyReadHalf κ σ :=
  match s.decryptor with
  | some _ => (none, s)
  | none =>
    let need := m.ivLen - s.readIv.length
    if need = 0 then
      match m.newDecryptor s.readIv with
      | .error err => (some (.ready (.error ⟨.invalidInput, err⟩)), s)
      | .ok decryptor => (none, { s with decryptor := some decryptor })
    else
      match _h : r.poll s.inner need with
      | (.pending, inner) => (some .pending, { s with inner := inner })
      | (.ready (.error err), inner) => (some (.ready (.error err)), { s with inner := inner })
      | (.ready (.ok filled), inner) =>
        if _hp : filled = [] then (some (.ready (.ok [])), { s with inner := inner })
        else ivLoop { s with inner := inner, readIv := s.readIv ++ filled }
termination_by r.size s.inner
decreasing_by exact r.shrinks _h _hp

/-- What is read is decrypted where it stands. -/
def readDecrypted (s : LegacyReadHalf κ σ) (room : Nat) :
    Poll (IoResult Bytes) × LegacyReadHalf κ σ :=
  match r.poll s.inner room with
  | (.pending, inner) => (.pending, { s with inner := inner })
  | (.ready (.error err), inner) => (.ready (.error err), { s with inner := inner })
  | (.ready (.ok filled), inner) =>
    if filled = [] then (.ready (.ok []), { s with inner := inner })
    else
      match s.decryptor with
      | none => (.ready (.ok filled), { s with inner := inner })
      | some k => (.ready (.ok (m.cipher.output k filled)),
          { s with inner := inner, decryptor := some (m.cipher.after k filled) })

def pollReadDecrypted (s : LegacyReadHalf κ σ) (room : Nat) :
    Poll (IoResult Bytes) × LegacyReadHalf κ σ :=
  match drainBuffer s.readBuffer room with
  | some (out, rest) => (.ready (.ok out), { s with readBuffer := rest })
  | none =>
    match s.ivLoop r m with
    | (some answer, s') => (answer, s')
    | (none, s') => s'.readDecrypted r m room

/-- What the bytes of a stream decrypt to: an IV, and the ciphertext behind it. -/
def plain (bytes : Bytes) : Bytes :=
  if bytes.length < m.ivLen then []
  else match m.newDecryptor (bytes.take m.ivLen) with
    | .error _ => []
    | .ok k => m.cipher.output k (bytes.drop m.ivLen)

variable {r m} {st₀ : σ}

/-- Where the reader stands in what has been read below it. -/
def Phase (m : LegacyMethod κ) (s : LegacyReadHalf κ σ) (arrived delivered : Bytes) : Prop :=
  match s.decryptor with
  | none => arrived = s.readIv ∧ delivered = [] ∧ s.readIv.length ≤ m.ivLen
  | some k => ∃ k₀ body, s.readIv.length = m.ivLen ∧ m.newDecryptor s.readIv = .ok k₀ ∧
      arrived = s.readIv ++ body ∧ delivered = m.cipher.output k₀ body ∧ k = m.cipher.after k₀ body

theorem Phase.plain {s : LegacyReadHalf κ σ} {arrived delivered : Bytes}
    (h : Phase m s arrived delivered) : delivered = plain m arrived := by
  rw [Phase] at h
  rw [LegacyReadHalf.plain]
  split at h
  case h_1 =>
    obtain ⟨rfl,rfl,hle⟩ := h
    split
    · rfl
    · rw [List.drop_eq_nil_of_le hle]
      split <;> rfl
  case h_2 k _ =>
    obtain ⟨k₀,body,hlen,hnew,rfl,rfl,_⟩ := h
    rw [if_neg (by rw [List.length_append]; omega), List.take_left' hlen, hnew, List.drop_left' hlen]

/-- The reader is between two reads of the stream below it. -/
structure Level (r : ByteReader σ UInt8) (m : LegacyMethod κ) (st₀ : σ) (s : LegacyReadHalf κ σ)
    (delivered : Bytes) (t : ReadSession σ UInt8) : Prop where
  reads : Reads r.poll st₀ t
  inner : t.stream = s.inner
  live : t.failed = false
  unused : s.readBuffer = []
  phase : Phase m s t.delivered delivered

/-- How an answer stands to the reader below. -/
def Answered (r : ByteReader σ UInt8) (m : LegacyMethod κ) (st₀ : σ)
    (answer : Poll (IoResult Bytes)) (s : LegacyReadHalf κ σ) (delivered : Bytes)
    (t : ReadSession σ UInt8) : Prop :=
  match answer with
  | .pending => Level r m st₀ s delivered t ∧ t.last = some .pending
  | .ready (.ok out) => Level r m st₀ s (delivered ++ out) t ∧
      (out = [] → t.last = some (.ready (.ok [])))
  | .ready (.error err) => Reads r.poll st₀ t ∧ t.stream = s.inner ∧ delivered = plain m t.delivered ∧
      (t.last = some (.ready (.error err)) ∨
        m.newDecryptor t.delivered = .error err.message ∧ t.delivered.length = m.ivLen)

/-- One read of the stream below. -/
theorem Level.read {s : LegacyReadHalf κ σ} {delivered : Bytes} {t : ReadSession σ UInt8}
    (h : Level r m st₀ s delivered t) {room : Nat} (hroom : 0 < room)
    {answer : Poll (IoResult Bytes)} {inner : σ} (hr : r.poll s.inner room = (answer, inner)) :
    ∃ t', Reads r.poll st₀ t' ∧ t'.stream = inner ∧ t'.last = some answer ∧
      t'.delivered = t.delivered ++ (match answer with
        | .ready (.ok p) => p
        | _ => []) := by
  have hread := h.reads.read room h.live hroom
  rw [ReadSession.read, h.inner, hr] at hread
  refine ⟨_,hread,?_⟩
  cases answer with
  | pending => exact ⟨rfl,rfl,(List.append_nil _).symm⟩
  | ready result =>
    cases result with
    | error err => exact ⟨rfl,rfl,(List.append_nil _).symm⟩
    | ok p => exact ⟨rfl,rfl,rfl⟩

theorem ivLoop_answered {s : LegacyReadHalf κ σ} {delivered : Bytes} {t : ReadSession σ UInt8}
    (h : Level r m st₀ s delivered t) :
    (∃ answer s' t', s.ivLoop r m = (some answer, s') ∧ Answered r m st₀ answer s' delivered t') ∨
    ∃ s' t' k, s.ivLoop r m = (none, s') ∧ s'.decryptor = some k ∧ Level r m st₀ s' delivered t' := by
  induction hsize : r.size s.inner using Nat.strong_induction_on generalizing s t with
  | _ size ih =>
    obtain ⟨hreads,hinner,hlive,hunused,hphase⟩ := id h
    rw [ivLoop]
    split
    case h_1 k hk => exact .inr ⟨s,t,k,rfl,hk,h⟩
    case h_2 hnone =>
      rw [Phase, hnone] at hphase
      obtain ⟨harrived,hdelivered,hle⟩ := hphase
      dsimp only
      split
      case isTrue hneed =>
        have hfull : s.readIv.length = m.ivLen := by omega
        split
        case h_1 err herr =>
          refine .inl ⟨_,s,t,rfl,hreads,hinner,?_,.inr ⟨by rw [harrived]; exact herr,?_⟩⟩
          · rw [harrived, hdelivered, plain, if_neg (by omega), List.drop_eq_nil_of_le hle]
            split <;> rfl
          · rw [harrived, hfull]
        case h_2 k₀ hnew =>
          refine .inr ⟨_,t,k₀,rfl,rfl,hreads,hinner,hlive,hunused,k₀,[],hfull,hnew,?_,hdelivered,rfl⟩
          rw [List.append_nil]
          exact harrived
      case isFalse hneed =>
        obtain ⟨⟨answer,inner⟩,hr⟩ : ∃ a, r.poll s.inner (m.ivLen - s.readIv.length) = a := ⟨_,rfl⟩
        obtain ⟨t',hreads',hinner',hlast,hmore⟩ := h.read (Nat.pos_of_ne_zero hneed) hr
        split
        case h_1 inner' heq =>
          cases hr.symm.trans heq
          rw [List.append_nil] at hmore
          refine .inl ⟨_,_,t',rfl,⟨hreads',hinner',by rw [ReadSession.failed, hlast],hunused,?_⟩,hlast⟩
          rw [Phase, hnone, hmore]
          exact ⟨harrived,hdelivered,hle⟩
        case h_2 err inner' heq =>
          cases hr.symm.trans heq
          rw [List.append_nil] at hmore
          refine .inl ⟨_,_,t',rfl,hreads',hinner',?_,.inl hlast⟩
          rw [hmore]
          exact h.phase.plain
        case h_3 filled inner' heq =>
          cases hr.symm.trans heq
          have hlive' : t'.failed = false := by rw [ReadSession.failed, hlast]
          have hbound := r.bounded hr
          by_cases hp : filled = []
          · subst hp
            rw [dif_pos rfl]
            rw [List.append_nil] at hmore
            refine .inl ⟨_,_,t',rfl,⟨hreads',hinner',hlive',hunused,?_⟩,fun _ => hlast⟩
            rw [Phase, hnone, hmore, List.append_nil]
            exact ⟨harrived,hdelivered,hle⟩
          · rw [dif_neg hp]
            refine ih _ (hsize ▸ r.shrinks hr hp) ⟨hreads',hinner',hlive',hunused,?_⟩ rfl
            rw [Phase, hnone, hmore, harrived]
            refine ⟨rfl,hdelivered,?_⟩
            rw [List.length_append]
            omega

theorem readDecrypted_answered {s : LegacyReadHalf κ σ} {delivered : Bytes}
    {t : ReadSession σ UInt8} {k : κ} (h : Level r m st₀ s delivered t)
    (hk : s.decryptor = some k) {room : Nat} (hroom : 0 < room) :
    ∃ t', Answered r m st₀ (s.readDecrypted r m room).1 (s.readDecrypted r m room).2 delivered t' := by
  obtain ⟨⟨answer,inner⟩,hr⟩ : ∃ a, r.poll s.inner room = a := ⟨_,rfl⟩
  obtain ⟨t',hreads',hinner',hlast,hmore⟩ := h.read hroom hr
  have hphase := h.phase
  have hplain := h.phase.plain
  rw [Phase, hk] at hphase
  obtain ⟨k₀,body,hlen,hnew,harrived,hdelivered,hafter⟩ := hphase
  refine ⟨t',?_⟩
  rw [readDecrypted, hr]
  cases answer with
  | pending =>
    rw [List.append_nil] at hmore
    refine ⟨⟨hreads',hinner',by rw [ReadSession.failed, hlast],h.unused,?_⟩,hlast⟩
    rw [Phase, hk, hmore]
    exact ⟨k₀,body,hlen,hnew,harrived,hdelivered,hafter⟩
  | ready result =>
    cases result with
    | error err =>
      rw [List.append_nil] at hmore
      exact ⟨hreads',hinner',by rw [hmore]; exact hplain,.inl hlast⟩
    | ok filled =>
      have hlive' : t'.failed = false := by rw [ReadSession.failed, hlast]
      by_cases hp : filled = []
      · subst hp
        rw [List.append_nil] at hmore
        refine ⟨⟨hreads',hinner',hlive',h.unused,?_⟩,fun _ => hlast⟩
        dsimp only
        rw [if_pos rfl, Phase, hk, hmore, List.append_nil]
        exact ⟨k₀,body,hlen,hnew,harrived,hdelivered,hafter⟩
      · simp only [if_neg hp, hk]
        refine ⟨⟨hreads',hinner',hlive',h.unused,k₀,body ++ filled,hlen,hnew,?_,?_,?_⟩,fun hnil => ?_⟩
        · rw [hmore, harrived, List.append_assoc]
        · rw [hdelivered, hafter, output_append]
        · rw [hafter, after_append]
        · have hzero := output_length m.cipher k filled
          rw [hnil] at hzero
          exact absurd (List.length_eq_zero_iff.mp hzero.symm) hp

theorem pollReadDecrypted_answered {s : LegacyReadHalf κ σ} {delivered : Bytes}
    {t : ReadSession σ UInt8} (h : Level r m st₀ s delivered t) {room : Nat} (hroom : 0 < room) :
    ∃ t', Answered r m st₀ (s.pollReadDecrypted r m room).1 (s.pollReadDecrypted r m room).2
      delivered t' := by
  have hdrain : drainBuffer s.readBuffer room = none := by
    rw [h.unused, drainBuffer, if_pos (.inl rfl)]
  rw [pollReadDecrypted, hdrain]
  dsimp only
  obtain ⟨answer,s',t',hloop,hanswered⟩ | ⟨s',t',k,hloop,hk,hlevel⟩ := ivLoop_answered h
  · rw [hloop]
    exact ⟨t',hanswered⟩
  · rw [hloop]
    exact readDecrypted_answered hlevel hk hroom

/-- The session of the reader below. -/
def Behind (r : ByteReader σ UInt8) (m : LegacyMethod κ) (st₀ : σ)
    (s : ReadSession (LegacyReadHalf κ σ) UInt8) (t : ReadSession σ UInt8) : Prop :=
  match s.last with
  | none => Level r m st₀ s.stream s.delivered t
  | some .pending => Level r m st₀ s.stream s.delivered t ∧ t.last = some .pending
  | some (.ready (.ok out)) => Level r m st₀ s.stream s.delivered t ∧
      (out = [] → t.last = some (.ready (.ok [])))
  | some (.ready (.error err)) => Reads r.poll st₀ t ∧ t.stream = s.stream.inner ∧
      s.delivered = plain m t.delivered ∧
      (t.last = some (.ready (.error err)) ∨
        m.newDecryptor t.delivered = .error err.message ∧ t.delivered.length = m.ivLen)

theorem Behind.level {s : ReadSession (LegacyReadHalf κ σ) UInt8} {t : ReadSession σ UInt8}
    (h : Behind r m st₀ s t) (hlive : s.failed = false) :
    Level r m st₀ s.stream s.delivered t := by
  obtain ⟨st,delivered,last⟩ := s
  cases last with
  | none => exact h
  | some answer =>
    cases answer with
    | pending => exact h.1
    | ready result =>
      cases result with
      | ok out => exact h.1
      | error err => cases hlive

/-- What a reader has is what the bytes read below decrypt to, in every session. -/
theorem reads_behind {s : ReadSession (LegacyReadHalf κ σ) UInt8}
    (h : Reads (pollReadDecrypted r m) (new st₀) s) : ∃ t, Behind r m st₀ s t := by
  induction h with
  | start => exact ⟨.start st₀,.start,rfl,rfl,rfl,rfl,rfl,Nat.zero_le _⟩
  | @read s room _ hlive hroom ih =>
    obtain ⟨t,hbehind⟩ := ih
    obtain ⟨t',hanswered⟩ := pollReadDecrypted_answered (hbehind.level hlive) hroom
    refine ⟨t',?_⟩
    rw [ReadSession.read]
    generalize pollReadDecrypted r m s.stream room = answer at hanswered
    obtain ⟨result,st⟩ := answer
    cases result with
    | pending => exact hanswered
    | ready result => cases result <;> exact hanswered

theorem Behind.decrypts {s : ReadSession (LegacyReadHalf κ σ) UInt8} {t : ReadSession σ UInt8}
    (h : Behind r m st₀ s t) : Reads r.poll st₀ t ∧ s.delivered = plain m t.delivered := by
  obtain ⟨st,delivered,last⟩ := s
  cases last with
  | none => exact ⟨Level.reads h,(Level.phase h).plain⟩
  | some answer =>
    cases answer with
    | pending => exact ⟨h.1.reads,h.1.phase.plain⟩
    | ready result =>
      cases result with
      | ok out => exact ⟨h.1.reads,h.1.phase.plain⟩
      | error err => exact ⟨h.1,h.2.2.1⟩

/-! ## What is left to read -/

/-- What one call takes from what is left. -/
def Takes (room n : Nat) (answer : Poll (IoResult Bytes)) (left : Nat) : Prop :=
  match answer with
  | .pending => left < n
  | .ready (.ok out) => out.length ≤ room ∧ left ≤ n ∧ (out ≠ [] → left < n)
  | .ready (.error _) => True

theorem Takes.mono {room n n' left : Nat} {answer : Poll (IoResult Bytes)} (h : Takes room n answer left)
    (hle : n ≤ n') : Takes room n' answer left := by
  cases answer with
  | pending => exact Nat.lt_of_lt_of_le h hle
  | ready result =>
    cases result with
    | error err => trivial
    | ok out => exact ⟨h.1,Nat.le_trans h.2.1 hle,fun hne => Nat.lt_of_lt_of_le (h.2.2 hne) hle⟩

def left (r : ByteReader σ UInt8) (s : LegacyReadHalf κ σ) : Nat :=
  r.size s.inner + s.readBuffer.length

theorem ivLoop_takes (room : Nat) (s : LegacyReadHalf κ σ) :
    (∃ answer s', s.ivLoop r m = (some answer, s') ∧ Takes room (s.left r) answer (s'.left r)) ∨
    ∃ s', s.ivLoop r m = (none, s') ∧ s'.left r ≤ s.left r := by
  induction hsize : r.size s.inner using Nat.strong_induction_on generalizing s with
  | _ size ih =>
    rw [ivLoop]
    split
    case h_1 k hk => exact .inr ⟨s,rfl,Nat.le_refl _⟩
    case h_2 hnone =>
      dsimp only
      split
      case isTrue hneed =>
        split
        case h_1 err _ => exact .inl ⟨_,s,rfl,trivial⟩
        case h_2 decryptor _ => exact .inr ⟨_,rfl,Nat.le_refl _⟩
      case isFalse hneed =>
        split
        case h_1 inner heq =>
          have hlt := r.waits heq
          exact .inl ⟨_,_,rfl,Nat.add_lt_add_right hlt _⟩
        case h_2 err inner heq => exact .inl ⟨_,_,rfl,trivial⟩
        case h_3 filled inner heq =>
          by_cases hp : filled = []
          · subst hp
            rw [dif_pos rfl]
            exact .inl ⟨_,_,rfl,Nat.zero_le _,Nat.add_le_add_right (r.ended heq) _,
              fun hne => absurd rfl hne⟩
          · have hlt := r.shrinks heq hp
            have hle : r.size inner + s.readBuffer.length ≤ s.left r :=
              Nat.add_le_add_right (Nat.le_of_lt hlt) _
            rw [dif_neg hp]
            obtain ⟨answer,s',hloop,htakes⟩ | ⟨s',hloop,hs'⟩ :=
              ih _ (hsize ▸ hlt) { s with inner := inner, readIv := s.readIv ++ filled } rfl
            · exact .inl ⟨answer,s',hloop,htakes.mono hle⟩
            · exact .inr ⟨s',hloop,Nat.le_trans hs' hle⟩

theorem readDecrypted_takes (room : Nat) (s : LegacyReadHalf κ σ) :
    Takes room (s.left r) (s.readDecrypted r m room).1 ((s.readDecrypted r m room).2.left r) := by
  obtain ⟨⟨answer,inner⟩,hr⟩ : ∃ a, r.poll s.inner room = a := ⟨_,rfl⟩
  rw [readDecrypted, hr]
  cases answer with
  | pending => exact Nat.add_lt_add_right (r.waits hr) _
  | ready result =>
    cases result with
    | error err => trivial
    | ok filled =>
      by_cases hp : filled = []
      · subst hp
        exact ⟨Nat.zero_le _,Nat.add_le_add_right (r.ended hr) _,fun hne => absurd rfl hne⟩
      · have hlt : r.size inner + s.readBuffer.length < s.left r :=
          Nat.add_lt_add_right (r.shrinks hr hp) _
        simp only [if_neg hp]
        split
        · exact ⟨r.bounded hr,Nat.le_of_lt hlt,fun _ => hlt⟩
        · refine ⟨?_,Nat.le_of_lt hlt,fun _ => hlt⟩
          rw [output_length]
          exact r.bounded hr

theorem pollReadDecrypted_takes (room : Nat) (s : LegacyReadHalf κ σ) :
    Takes room (s.left r) (s.pollReadDecrypted r m room).1
      ((s.pollReadDecrypted r m room).2.left r) := by
  rw [pollReadDecrypted]
  split
  case h_1 out rest hdrain =>
    obtain ⟨hsplit,hne⟩ := drainBuffer_some hdrain
    have hpos := List.length_pos_iff.mpr hne
    have hlen := congrArg List.length hsplit
    rw [List.length_append] at hlen
    have hroom : out.length ≤ room := by
      rw [drainBuffer] at hdrain
      split at hdrain
      · cases hdrain
      · cases hdrain
        exact List.length_take_le ..
    refine ⟨hroom,?_,fun _ => ?_⟩ <;>
    · rw [left, left]
      dsimp only
      omega
  case h_2 =>
    obtain ⟨answer,s',hloop,htakes⟩ | ⟨s',hloop,hle⟩ := @ivLoop_takes _ _ r m room s
    · rw [hloop]
      exact htakes
    · rw [hloop]
      exact (readDecrypted_takes room s').mono hle

theorem takes_of_poll {s s' : LegacyReadHalf κ σ} {room : Nat} {answer : Poll (IoResult Bytes)}
    (h : pollReadDecrypted r m s room = (answer, s')) : Takes room (s.left r) answer (s'.left r) := by
  have htakes := @pollReadDecrypted_takes _ _ r m room s
  rw [h] at htakes
  exact htakes

/-- The read half is a stream to read from itself. -/
def reader (r : ByteReader σ UInt8) (m : LegacyMethod κ) : ByteReader (LegacyReadHalf κ σ) UInt8 where
  poll := pollReadDecrypted r m
  size := left r
  bounded h := (takes_of_poll h).1
  shrinks h := (takes_of_poll h).2.2
  ended h := (takes_of_poll h).2.1
  waits h := takes_of_poll h

end LegacyReadHalf

/-! ## The stream above -/

namespace SsrClientStream
open LegacyReadHalf

/-- `codec.decode(piece, &mut read_buffer)`. The codec keeps the bytes of a frame that is not
whole. -/
def decodePiece {χ : Type*} (c : Ssr.SsrDecoder χ) (k : χ × Bytes) (piece : Bytes) :
    Piece (χ × Bytes) UInt8 :=
  let d := c.decode k.1 k.2 piece
  ⟨d.out, d.fault, (d.state, d.rest)⟩

/-- `SsrClientStream` as far as it reads. -/
abbrev ReadHalf (χ σ : Type*) := Layered σ (χ × Bytes) UInt8

def pollRead {χ : Type*} (r : ByteReader σ UInt8) (c : Ssr.SsrDecoder χ) (s : ReadHalf χ σ)
    (room : Nat) : Poll (IoResult Bytes) × ReadHalf χ σ :=
  r.pollThrough (decodePiece c) 8192 s room

variable {χ : Type*} {c : Ssr.SsrDecoder χ} {s₀ : χ}

theorem decodeAll_feed {s : χ} {buf : Bytes} (hraw : c.rawRecv s = false) (pieces : List Bytes) :
    (decodeAll (decodePiece c) (s, buf) pieces).out = (c.frames.feed s buf pieces).out ∧
    (decodeAll (decodePiece c) (s, buf) pieces).fault = (c.frames.feed s buf pieces).fault := by
  induction pieces generalizing s buf with
  | nil => exact ⟨rfl,rfl⟩
  | cons piece pieces ih =>
    simp only [decodeAll, feed, decodePiece, Ssr.SsrDecoder.decode_framed hraw]
    cases hfault : (c.frames.run s (buf ++ piece)).fault with
    | some err => exact ⟨rfl,hfault.symm⟩
    | none =>
      obtain ⟨hout,hnone⟩ := @ih _ (c.frames.run s (buf ++ piece)).rest
        ((Ssr.SsrDecoder.raw_run s (buf ++ piece) hfault).trans hraw)
      exact ⟨congrArg (_ ++ ·) hout,hnone⟩

/-- The pieces decode to what one run over all of them gives. -/
theorem decodeAll_run (hraw : c.rawRecv s₀ = false) (hwait : c.frames.inspect s₀ [] = .wait s₀)
    (pieces : List Bytes) :
    (decodeAll (decodePiece c) (s₀, []) pieces).out = (c.frames.run s₀ pieces.flatten).out ∧
    (decodeAll (decodePiece c) (s₀, []) pieces).fault = (c.frames.run s₀ pieces.flatten).fault := by
  obtain ⟨hout,hfault⟩ := decodeAll_feed hraw pieces
  obtain ⟨hfault',hout',_⟩ := c.frames.feed_flatten s₀ [] hwait pieces
  exact ⟨hout.trans hout',hfault.trans hfault'⟩

end SsrClientStream

/-! ## From the socket up -/

namespace LegacyReadHalf
variable {m : LegacyMethod κ}

/-- More bytes decrypt to more. -/
theorem plain_prefix {front whole : Bytes} (h : front <+: whole) : plain m front <+: plain m whole := by
  obtain ⟨more,rfl⟩ := h
  by_cases hshort : front.length < m.ivLen
  · rw [plain, if_pos hshort]
    exact List.nil_prefix
  · have hlen : m.ivLen ≤ front.length := Nat.not_lt.mp hshort
    rw [plain, plain, if_neg hshort, if_neg (by rw [List.length_append]; omega),
      List.take_append_of_le_length hlen, List.drop_append_of_le_length hlen]
    split
    · exact List.nil_prefix
    · rw [output_append]
      exact List.prefix_append _ _

/-- A session over a socket: what the reader has is what comes from the front of the stream, at
the end of the stream all of it, and there is no error but an IV the cipher does not take. -/
theorem Behind.source {src : Source UInt8} (hsrc : Flawless src)
    {s : ReadSession (LegacyReadHalf κ (Source UInt8)) UInt8} {t : ReadSession (Source UInt8) UInt8}
    (h : Behind Source.reader m src s t) :
    s.delivered <+: plain m (sourceBytes src) ∧
      (s.last = some (.ready (.ok [])) → s.delivered = plain m (sourceBytes src)) ∧
      ∀ err, s.last = some (.ready (.error err)) → m.ivLen ≤ (sourceBytes src).length ∧
        m.newDecryptor ((sourceBytes src).take m.ivLen) = .error err.message := by
  obtain ⟨hreads,hplain⟩ := h.decrypts
  obtain ⟨hbytes,hflawless,hend⟩ := hreads.source hsrc
  have hbegins : t.delivered <+: sourceBytes src := ⟨_,hbytes⟩
  refine ⟨hplain ▸ plain_prefix hbegins,fun hlast => ?_,fun err hlast => ?_⟩
  · rw [Behind, hlast] at h
    rw [hend (h.2 rfl), List.append_nil] at hbytes
    rw [hplain, hbytes]
  · rw [Behind, hlast] at h
    obtain ⟨_,_,_,hfail | ⟨hnew,hlen⟩⟩ := h
    · exact absurd hfail (hreads.flawless hsrc err)
    · refine ⟨?_,?_⟩
      · rw [← hbytes, List.length_append]
        omega
      · rw [← hbytes, List.take_left' hlen]
        exact hnew

end LegacyReadHalf

namespace SsrClientStream
open LegacyReadHalf
variable {χ : Type*} {c : Ssr.SsrDecoder χ} {s₀ : χ} {m : LegacyMethod κ} {src : Source UInt8}

theorem run_front {front whole : Bytes} (h : front <+: whole) :
    (c.frames.run s₀ front).out <+: (c.frames.run s₀ whole).out ∧
      ∀ err, (c.frames.run s₀ front).fault = some err → (c.frames.run s₀ whole).fault = some err ∧
        (c.frames.run s₀ whole).out = (c.frames.run s₀ front).out := by
  obtain ⟨more,rfl⟩ := h
  cases hfault : (c.frames.run s₀ front).fault with
  | some err =>
    obtain ⟨hfault',hout⟩ := c.frames.run_fault_append s₀ front more hfault
    refine ⟨hout ▸ List.prefix_rfl,fun err' heq => ?_⟩
    cases heq
    exact ⟨hfault',hout⟩
  | none =>
    rw [c.frames.run_append s₀ front more hfault]
    exact ⟨List.prefix_append _ _,nofun⟩

/-- What a reader of the whole stack gets of a stream. -/
def Gets (m : LegacyMethod κ) (c : Ssr.SsrDecoder χ) (s₀ : χ) (src : Source UInt8)
    (s : ReadSession (ReadHalf χ (LegacyReadHalf κ (Source UInt8))) UInt8) : Prop :=
  let whole := c.frames.run s₀ (plain m (sourceBytes src))
  s.delivered <+: whole.out ∧
  (s.last = some (.ready (.ok [])) → s.delivered = whole.out ∧ whole.fault = none) ∧
  ∀ err, s.last = some (.ready (.error err)) → whole.fault = some err ∨
    m.ivLen ≤ (sourceBytes src).length ∧ m.newDecryptor ((sourceBytes src).take m.ivLen) = .error err.message

theorem reads_get (hraw : c.rawRecv s₀ = false) (hwait : c.frames.inspect s₀ [] = .wait s₀)
    (hsrc : Flawless src) {s : ReadSession (ReadHalf χ (LegacyReadHalf κ (Source UInt8))) UInt8}
    (h : Reads (pollRead (reader Source.reader m) c) ⟨.new src, (s₀, []), []⟩ s) :
    Gets m c s₀ src s := by
  obtain ⟨t,pieces,hbehind⟩ := ByteReader.reads_through (by decide) h
  obtain ⟨hreads,hcut,hout⟩ := hbehind.got
  obtain ⟨u,hu⟩ := reads_behind hreads
  obtain ⟨hbegins,hend,hiv⟩ := hu.source hsrc
  obtain ⟨hrun,hfault⟩ := decodeAll_run hraw hwait pieces
  rw [hcut] at hrun hfault
  obtain ⟨hfront,hfaulted⟩ := @run_front _ c s₀ _ _ hbegins
  have hdelivered : s.delivered <+: (c.frames.run s₀ t.delivered).out :=
    ⟨s.stream.buffer,hout.symm.trans hrun⟩
  refine ⟨hdelivered.trans hfront,fun hlast => ?_,fun err hlast => ?_⟩
  · rw [ByteReader.Behind, hlast] at hbehind
    obtain ⟨hlevel,hempty⟩ := hbehind
    obtain ⟨htlast,hbuffer⟩ := hempty rfl
    rw [hbuffer, List.append_nil] at hout
    rw [← hend htlast, ← hrun, hout, ← hfault, hlevel.decoded]
    exact ⟨rfl,rfl⟩
  · rw [ByteReader.Behind, hlast] at hbehind
    obtain ⟨_,_,_,_,⟨htlast,_⟩ | hbad⟩ := hbehind
    · exact .inr (hiv err htlast)
    · exact .inl (hfaulted err (hfault ▸ hbad)).1

/-- A reader that keeps reading gets to the end of the stream or to an error. -/
theorem reads_end (hraw : c.rawRecv s₀ = false) (hwait : c.frames.inspect s₀ [] = .wait s₀)
    (hsrc : Flawless src) {room : Nat} (hroom : 0 < room) :
    ∃ s, Reads (pollRead (reader Source.reader m) c) ⟨.new src, (s₀, []), []⟩ s ∧
      (s.last = some (.ready (.ok [])) ∨ s.failed = true) := by
  refine (reader Source.reader m).through_ends (decodePiece c) 8192
    (c.frames.run s₀ (plain m (sourceBytes src))).out.length hroom fun s hs => ?_
  have hgets : Gets m c s₀ src s := reads_get hraw hwait hsrc hs
  exact hgets.1.length_le

/-- However the stream is cut, whenever it stalls and however large the buffers are, a reader gets
the frames of the decrypted stream in order: a part of them at any time, all of them when the
stream ends, and an error only for a frame or an IV that is wrong. If they are all right, a reader
that keeps reading has all of them in the end. -/
theorem ssr_read_delivers (m : LegacyMethod κ) (c : Ssr.SsrDecoder χ) (s₀ : χ)
    (hraw : c.rawRecv s₀ = false) (hwait : c.frames.inspect s₀ [] = .wait s₀)
    (src : Source UInt8) (hsrc : Flawless src) :
    (∀ s, Reads (pollRead (reader Source.reader m) c) ⟨.new src, (s₀, []), []⟩ s →
      Gets m c s₀ src s) ∧
    ((c.frames.run s₀ (plain m (sourceBytes src))).fault = none →
      (m.ivLen ≤ (sourceBytes src).length → ∃ k,
        m.newDecryptor ((sourceBytes src).take m.ivLen) = .ok k) →
      ∃ s, Reads (pollRead (reader Source.reader m) c) ⟨.new src, (s₀, []), []⟩ s ∧
        s.delivered = (c.frames.run s₀ (plain m (sourceBytes src))).out) := by
  refine ⟨fun s hs => reads_get hraw hwait hsrc hs,fun hfault hiv => ?_⟩
  obtain ⟨s,hs,hend⟩ := reads_end (m := m) hraw hwait hsrc (Nat.zero_lt_one)
  obtain ⟨_,hall,herror⟩ := reads_get hraw hwait hsrc hs
  refine ⟨s,hs,?_⟩
  cases hend with
  | inl hlast => exact (hall hlast).1
  | inr hfailed =>
    obtain ⟨err,hlast⟩ := ReadSession.failed_iff.mp hfailed
    obtain hbad | ⟨hlong,hnew⟩ := herror err hlast
    · rw [hfault] at hbad
      cases hbad
    · obtain ⟨k,hgood⟩ := hiv hlong
      rw [hgood] at hnew
      cases hnew

theorem ssr_read_delivers_verify_simple :
    let m : LegacyMethod UInt8 := ⟨.xor (fun k => (k, k+1)), 1, fun iv => .ok (iv.headD 0)⟩
    let src : Source UInt8 := [.segment 9 [9, 3], .pending, .segment 10 [9, 11, 24, 15, 44, 17]]
    let whole := Ssr.VerifySimpleCodec.decoder.frames.run .new (plain m (sourceBytes src))
    (∀ s, Reads (pollRead (reader Source.reader m) Ssr.VerifySimpleCodec.decoder)
      ⟨.new src, (.new, []), []⟩ s → Gets m Ssr.VerifySimpleCodec.decoder .new src s) ∧
    (whole.fault = none → (m.ivLen ≤ (sourceBytes src).length → ∃ k,
        m.newDecryptor ((sourceBytes src).take m.ivLen) = .ok k) →
      ∃ s, Reads (pollRead (reader Source.reader m) Ssr.VerifySimpleCodec.decoder)
        ⟨.new src, (.new, []), []⟩ s ∧ s.delivered = whole.out) := by
  intro m src whole
  exact ssr_read_delivers m Ssr.VerifySimpleCodec.decoder .new rfl
    (Ssr.VerifySimpleCodec.inspect_nil .new) src fun err => by simp [src]

end SsrClientStream
end AtlasKernel.Shadowsocks
