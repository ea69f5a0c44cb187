import AtlasKernel.Lib.Bytes
import AtlasKernel.Lib.Session

/-! The partially written buffer that the obfuscation and crypto streams keep
between polls, and the read buffer they drain. Source: `shadowsocks/obfs.rs`. -/
namespace AtlasKernel.Shadowsocks
open AtlasKernel.Lib

/-- `offset` never runs past `data`; the slice `data[offset..]` is always valid. -/
structure PendingWrite where
  data : Bytes
  offset : Nat
  originalLen : Nat
  within : offset ≤ data.length
deriving DecidableEq, Repr

def PendingWrite.new (data : Bytes) (originalLen : Nat) : PendingWrite :=
  ⟨data, 0, originalLen, Nat.zero_le _⟩

/-- What has not reached the inner stream yet. -/
def PendingWrite.rest (p : PendingWrite) : Bytes := p.data.drop p.offset

@[simp] theorem new_rest (data : Bytes) (n : Nat) : (PendingWrite.new data n).rest = data := rfl

def PendingWrite.pollWriteAll (p : PendingWrite) (stream : Sink UInt8) :
    Poll (IoResult Nat) × PendingWrite × Sink UInt8 :=
  let r := writeLoop p.data p.offset stream
  let p' := { p with offset := r.2.1, within := (writeLoop_progress _ _ stream p.within).bound }
  match r.1 with
  | .pending => (.pending, p', r.2.2)
  | .failed err => (.ready (.error err), p', r.2.2)
  | .zero => (.ready (.error ⟨.writeZero, "simple-obfs transport write returned zero"⟩), p', r.2.2)
  | .done => (.ready (.ok p.originalLen), p', r.2.2)

/-- `if let Some(mut pending) = self.pending_write.take()`: the buffer goes back
only when the inner stream is pending. -/
def PendingWrite.resume (p : PendingWrite) (stream : Sink UInt8) :
    Poll (IoResult Nat) × Option PendingWrite × Sink UInt8 :=
  match p.pollWriteAll stream with
  | (.pending, p', inner) => (.pending, some p', inner)
  | (r, _, inner) => (r, none, inner)

/-- The same where there may be nothing to write. -/
def takePending (pending : Option PendingWrite) (stream : Sink UInt8) :
    Option (Poll (IoResult Nat)) × Option PendingWrite × Sink UInt8 :=
  match pending with
  | none => (none, none, stream)
  | some p => (some (p.resume stream).1, (p.resume stream).2)

/-- The three ways a resumed write ends. It completes exactly when the next burst
of the inner stream covers what is left; otherwise every byte is either sent or
still pending, or lost with an error. -/
theorem resume_cases (p : PendingWrite) (s : Sink UInt8) :
    (∃ s', p.resume s = (.ready (.ok p.originalLen), none, s') ∧
      s'.sent = s.sent ++ p.rest ∧ p.rest.length ≤ s.burst) ∨
    (∃ p' s', p.resume s = (.pending, some p', s') ∧ p'.originalLen = p.originalLen ∧
      s'.sent ++ p'.rest = s.sent ++ p.rest ∧ s.burst < p.rest.length) ∨
    (∃ e s' lost, p.resume s = (.ready (.error e), none, s') ∧
      s'.sent ++ lost = s.sent ++ p.rest ∧ s.burst < p.rest.length) := by
  have hp := writeLoop_progress p.data p.offset s p.within
  have hd := writeLoop_done_iff p.data p.offset s
  have hl : p.rest.length = p.data.length - p.offset := by simp [PendingWrite.rest]
  have hc : (writeLoop p.data p.offset s).2.2.sent ++
      p.data.drop (writeLoop p.data p.offset s).2.1 = s.sent ++ p.rest := hp.conserve
  rw [← hl] at hd
  unfold PendingWrite.resume PendingWrite.pollWriteAll
  cases hr : (writeLoop p.data p.offset s).1 with
  | done =>
    refine .inl ⟨(writeLoop p.data p.offset s).2.2, by simp only [hr], ?_, hd.mp hr⟩
    rw [hp.done.mp hr] at hc
    simpa using hc
  | pending =>
    have hb : ¬ p.rest.length ≤ s.burst := fun h => by simp [hd.mpr h] at hr
    let p' : PendingWrite := ⟨p.data, (writeLoop p.data p.offset s).2.1, p.originalLen, hp.bound⟩
    exact .inr (.inl ⟨p', (writeLoop p.data p.offset s).2.2, by simp only [hr, p'], rfl, hc, by omega⟩)
  | zero =>
    have hb : ¬ p.rest.length ≤ s.burst := fun h => by simp [hd.mpr h] at hr
    exact .inr (.inr ⟨_, (writeLoop p.data p.offset s).2.2, _, by simp only [hr]; rfl, hc, by omega⟩)
  | failed e =>
    have hb : ¬ p.rest.length ≤ s.burst := fun h => by simp [hd.mpr h] at hr
    exact .inr (.inr ⟨e, (writeLoop p.data p.offset s).2.2, _, by simp only [hr], hc, by omega⟩)

/-- On a sink without errors a resumed write completes or stays pending. -/
theorem resume_willing (p : PendingWrite) {s : Sink UInt8} (hs : s.Willing) :
    (∃ s', p.resume s = (.ready (.ok p.originalLen), none, s') ∧
      s'.sent = s.sent ++ p.rest ∧ s'.Willing ∧ p.rest.length ≤ s.burst) ∨
    (∃ p' s', p.resume s = (.pending, some p', s') ∧ p'.originalLen = p.originalLen ∧
      s'.sent ++ p'.rest = s.sent ++ p.rest ∧ s'.Willing ∧ s.burst < p.rest.length) := by
  obtain ⟨hw,hexit⟩ := writeLoop_willing p.data p.offset s hs
  have hsink : (p.resume s).2.2 = (writeLoop p.data p.offset s).2.2 := by
    rw [PendingWrite.resume, PendingWrite.pollWriteAll]
    obtain h | h := hexit <;> simp only [h]
  obtain ⟨s',hr,hsent,hb⟩ | ⟨p',s',hr,hlen,hsent,hb⟩ | ⟨e,s',lost,hr,_⟩ := resume_cases p s
  · rw [← hsink, hr] at hw
    exact .inl ⟨s',hr,hsent,hw,hb⟩
  · rw [← hsink, hr] at hw
    exact .inr ⟨p',s',hr,hlen,hsent,hw,hb⟩
  · rw [PendingWrite.resume, PendingWrite.pollWriteAll] at hr
    obtain h | h := hexit <;> simp [h] at hr

/-! ## The read buffer -/

/-- What goes to the caller and what stays, or `none` if nothing moves. -/
def drainBuffer (buffer : Bytes) (room : Nat) : Option (Bytes × Bytes) :=
  if buffer = [] ∨ room = 0 then none else some (buffer.take room, buffer.drop room)

theorem drainBuffer_none {buffer : Bytes} {room : Nat} (h : drainBuffer buffer room = none) :
    buffer = [] ∨ room = 0 := by
  rw [drainBuffer] at h
  split at h
  · assumption
  · cases h

theorem drainBuffer_some {buffer out rest : Bytes} {room : Nat}
    (h : drainBuffer buffer room = some (out, rest)) : out ++ rest = buffer ∧ out ≠ [] := by
  rw [drainBuffer] at h
  split at h
  · cases h
  · cases h
    refine ⟨List.take_append_drop .., ?_⟩
    simp_all

end AtlasKernel.Shadowsocks
