import AtlasKernel.Lib.PollIo

/-! Callers of a poll-based stream. A writer repeats the same buffer after
`Pending` and may write anything after `Ready`; a reader offers room and collects
what it gets. Both give up at the first error. A session is a reachable state of
stream and caller together, and `Cond` restricts which calls are made. -/
namespace AtlasKernel.Lib
variable {α σ : Type*}

inductive Caller (α : Type*) where
  | fresh
  | acked
  | retrying (buf : List α)
  | failed (buf : List α) (err : IoError)
deriving DecidableEq, Repr

def Caller.mayWrite : Caller α → List α → Prop
  | .fresh, _ | .acked, _ => True
  | .retrying b, buf => buf = b
  | .failed _ _, _ => False

instance [DecidableEq α] (c : Caller α) (buf : List α) : Decidable (c.mayWrite buf) :=
  match c with
  | .fresh | .acked => .isTrue trivial
  | .retrying b => inferInstanceAs (Decidable (buf = b))
  | .failed _ _ => .isFalse id

/-- The bytes handed over in a call that has not been answered `Ready(Ok)`. -/
def Caller.inFlight : Caller α → List α
  | .fresh | .acked => []
  | .retrying b | .failed b _ => b

/-- The same as a list of at most one buffer. -/
def Caller.attempt : Caller α → List (List α)
  | .fresh | .acked => []
  | .retrying b | .failed b _ => [b]

structure WriteSession (σ α : Type*) where
  stream : σ
  accepted : List (List α)
  caller : Caller α
deriving DecidableEq, Repr

def WriteSession.start (st : σ) : WriteSession σ α := ⟨st, [], .fresh⟩

/-- Record the answer to one call with `buf`. -/
def WriteSession.settle (s : WriteSession σ α) (buf : List α) :
    Poll (IoResult Nat) × σ → WriteSession σ α
  | (.pending, st) => ⟨st, s.accepted, .retrying buf⟩
  | (.ready (.ok n), st) => ⟨st, s.accepted ++ [buf.take n], .acked⟩
  | (.ready (.error e), st) => ⟨st, s.accepted, .failed buf e⟩

def WriteSession.write (poll : σ → List α → Poll (IoResult Nat) × σ) (s : WriteSession σ α)
    (buf : List α) : WriteSession σ α :=
  s.settle buf (poll s.stream buf)

/-- The sessions a writer reaches from `st₀`. -/
inductive Writes (poll : σ → List α → Poll (IoResult Nat) × σ) (Cond : σ → List α → Prop)
    (st₀ : σ) : WriteSession σ α → Prop where
  | start : Writes poll Cond st₀ (.start st₀)
  | write {s : WriteSession σ α} (buf : List α) :
      Writes poll Cond st₀ s → s.caller.mayWrite buf → Cond s.stream buf →
      Writes poll Cond st₀ (s.write poll buf)

theorem Writes.invariant {poll : σ → List α → Poll (IoResult Nat) × σ}
    {Cond : σ → List α → Prop} {st₀ : σ} {s : WriteSession σ α}
    (I : WriteSession σ α → Prop) (h : Writes poll Cond st₀ s) (h₀ : I (.start st₀))
    (hstep : ∀ s buf, I s → s.caller.mayWrite buf → Cond s.stream buf →
      I (s.write poll buf)) : I s := by
  induction h with
  | start => exact h₀
  | write buf _ hm hc ih => exact hstep _ buf ih hm hc

structure ReadSession (σ α : Type*) where
  stream : σ
  delivered : List α
  last : Option (Poll (IoResult (List α)))
deriving DecidableEq, Repr

def ReadSession.start (st : σ) : ReadSession σ α := ⟨st, [], none⟩

def ReadSession.failed (s : ReadSession σ α) : Bool :=
  match s.last with
  | some (.ready (.error _)) => true
  | _ => false

def ReadSession.settle (s : ReadSession σ α) :
    Poll (IoResult (List α)) × σ → ReadSession σ α
  | (.ready (.ok p), st) => ⟨st, s.delivered ++ p, some (.ready (.ok p))⟩
  | (r, st) => ⟨st, s.delivered, some r⟩

def ReadSession.read (poll : σ → Nat → Poll (IoResult (List α)) × σ) (s : ReadSession σ α)
    (room : Nat) : ReadSession σ α :=
  s.settle (poll s.stream room)

/-- The sessions a reader with nonempty buffers reaches from `st₀`. -/
inductive Reads (poll : σ → Nat → Poll (IoResult (List α)) × σ) (st₀ : σ) :
    ReadSession σ α → Prop where
  | start : Reads poll st₀ (.start st₀)
  | read {s : ReadSession σ α} (room : Nat) :
      Reads poll st₀ s → s.failed = false → 0 < room → Reads poll st₀ (s.read poll room)

theorem Reads.invariant {poll : σ → Nat → Poll (IoResult (List α)) × σ} {st₀ : σ}
    {s : ReadSession σ α} (I : ReadSession σ α → Prop) (h : Reads poll st₀ s)
    (h₀ : I (.start st₀))
    (hstep : ∀ s room, I s → s.failed = false → 0 < room → I (s.read poll room)) : I s := by
  induction h with
  | start => exact h₀
  | read room _ ho hr ih => exact hstep _ room ih ho hr

theorem ReadSession.read_stream (poll : σ → Nat → Poll (IoResult (List α)) × σ)
    (s : ReadSession σ α) (room : Nat) : (s.read poll room).stream = (poll s.stream room).2 := by
  rw [ReadSession.read]
  generalize poll s.stream room = answer
  obtain ⟨r,st⟩ := answer
  cases r with
  | pending => rfl
  | ready r => cases r <;> rfl

/-- The sessions of a reader that reads until it has enough. -/
inductive ReadsUntil (enough : List α → Prop) (poll : σ → Nat → Poll (IoResult (List α)) × σ)
    (st₀ : σ) : ReadSession σ α → Prop where
  | start : ReadsUntil enough poll st₀ (.start st₀)
  | read {s : ReadSession σ α} (room : Nat) : ReadsUntil enough poll st₀ s → ¬ enough s.delivered →
      s.failed = false → 0 < room → ReadsUntil enough poll st₀ (s.read poll room)

theorem ReadsUntil.reads {enough : List α → Prop} {poll : σ → Nat → Poll (IoResult (List α)) × σ}
    {st₀ : σ} {s : ReadSession σ α} (h : ReadsUntil enough poll st₀ s) : Reads poll st₀ s := by
  induction h with
  | start => exact .start
  | read room _ _ ho hr ih => exact .read room ih ho hr

/-- A size that falls with every answer but the last brings a reader to what is enough, to the
end of the stream or to an error. -/
theorem ReadsUntil.ends {enough : List α → Prop} {poll : σ → Nat → Poll (IoResult (List α)) × σ}
    {st₀ : σ} (I : ReadSession σ α → Prop) (size : σ → Nat) {room : Nat} (hroom : 0 < room)
    (hstep : ∀ s, I s → ¬ enough s.delivered →
      (∃ err, (poll s.stream room).1 = .ready (.error err)) ∨
      (poll s.stream room).1 = .ready (.ok []) ∨
      I (s.read poll room) ∧ size (poll s.stream room).2 < size s.stream)
    {s : ReadSession σ α} (h : ReadsUntil enough poll st₀ s) (ho : s.failed = false) (hI : I s) :
    ∃ s', ReadsUntil enough poll st₀ s' ∧
      (enough s'.delivered ∨ s'.last = some (.ready (.ok [])) ∨ s'.failed = true) := by
  classical
  induction hn : size s.stream using Nat.strong_induction_on generalizing s with
  | _ n ih =>
    by_cases henough : enough s.delivered
    · exact ⟨s, h, .inl henough⟩
    · have hread := h.read room henough ho hroom
      have hcases := hstep s hI henough
      rw [ReadSession.read] at hread hcases
      generalize poll s.stream room = answer at hread hcases
      obtain ⟨r,st⟩ := answer
      obtain ⟨err,rfl⟩ | rfl | ⟨hI',hlt⟩ := hcases
      · exact ⟨_, hread, .inr (.inr rfl)⟩
      · exact ⟨_, hread, .inr (.inl rfl)⟩
      · cases r with
        | pending => exact ih _ (hn ▸ hlt) hread rfl hI' rfl
        | ready r =>
          cases r with
          | error err => exact ⟨_, hread, .inr (.inr rfl)⟩
          | ok out => exact ih _ (hn ▸ hlt) hread rfl hI' rfl

/-- The same for a reader that never has enough. -/
theorem Reads.ends {poll : σ → Nat → Poll (IoResult (List α)) × σ} {st₀ : σ} (I : σ → Prop)
    (size : σ → Nat) {room : Nat} (hroom : 0 < room)
    (hstep : ∀ st, I st →
      (∃ err, (poll st room).1 = .ready (.error err)) ∨ (poll st room).1 = .ready (.ok []) ∨
      I (poll st room).2 ∧ size (poll st room).2 < size st)
    (hI : I st₀) :
    ∃ s, Reads poll st₀ s ∧ (s.last = some (.ready (.ok [])) ∨ s.failed = true) := by
  have hends : ∃ s, ReadsUntil (fun _ => False) poll st₀ s ∧
      (False ∨ s.last = some (.ready (.ok [])) ∨ s.failed = true) := by
    refine ReadsUntil.ends (fun s => I s.stream) size hroom (fun s hs _ => ?_) .start rfl hI
    rw [ReadSession.read_stream]
    exact hstep s.stream hs
  obtain ⟨s,hs,hfalse | hend⟩ := hends
  · exact hfalse.elim
  · exact ⟨s, hs.reads, hend⟩

end AtlasKernel.Lib
