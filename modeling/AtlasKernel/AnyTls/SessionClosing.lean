import AtlasKernel.Lib.Steps

/-! The closing of an AnyTLS session among the tasks that share its closed flag and its two
maps: calls of `open_stream`, the read loop with `close_session`, failed writes and
`cleanup_idle` with `close`, and the tasks that take a stream off the maps. Every access
under one lock is a step of its own. Where no strong reference is left, there are no
readers and no maps. Source: `adapter/anytls.rs`. -/
namespace AtlasKernel.AnyTls
open AtlasKernel.Lib

/-- How far a call of `open_stream` has come; `ended` is that the stream has been shut down
or dropped, `failed` that the call has returned an error or has been dropped itself. -/
inductive OpenStage where
  | checked
  | streamInserted
  | synackInserted
  | opened
  | ended
  | failed
deriving DecidableEq, Repr

structure OpenCall where
  streamId : UInt32
  stage : OpenStage
deriving DecidableEq, Repr

/-- Where the read loop is; within `close_session`, whether it ends after it. -/
inductive ReadStage where
  | reading
  | draining (last : Bool)
  | clearing (last : Bool)
  | finished
deriving DecidableEq, Repr

/-- A map holds the senders of the calls, which go by their index. -/
abbrev SenderMap := List (UInt32 × Nat)

def SenderMap.insert (m : SenderMap) (streamId : UInt32) (call : Nat) : SenderMap :=
  (streamId, call) :: m.filter (·.1 ≠ streamId)

def SenderMap.remove (m : SenderMap) (streamId : UInt32) : SenderMap :=
  m.filter (·.1 ≠ streamId)

structure ClosingSession where
  closed : Bool
  nextStreamId : UInt32
  calls : List OpenCall
  streams : SenderMap
  synacks : SenderMap
  writing : Bool
  reader : ReadStage
deriving DecidableEq, Repr

inductive ClosingEvent where
  | openStream
  | insertStream (call : Nat)
  | insertSynack (call : Nat)
  | sendInitial (call : Nat) (encoded : Bool)
  | abandon (call : Nat)
  | endStream (call : Nat)
  | removeStream (call : Nat)
  | removeSynack (call : Nat)
  | close
  | writeFails
  | fin (streamId : UInt32)
  | synack (streamId : UInt32) (accepted : Bool)
  | alert
  | readEnds
  | drainSynacks
  | clearStreams
deriving DecidableEq, Repr

namespace ClosingSession

def new : ClosingSession := ⟨false, 1, [], [], [], true, .reading⟩

/-- The call, if it has come to this stage. -/
def callAt (s : ClosingSession) (call : Nat) (stage : OpenStage) : Option OpenCall :=
  (s.calls[call]?).filter (·.stage = stage)

def setStage (s : ClosingSession) (call : Nat) (c : OpenCall) (stage : OpenStage) :
    ClosingSession :=
  { s with calls := s.calls.set call { c with stage := stage } }

/-- `close_session` up to its early return, from a read loop that may end after it. -/
def closeSession (s : ClosingSession) (last : Bool) : ClosingSession :=
  if s.reader ≠ .reading then s
  else if s.closed then { s with reader := if last then .finished else .reading }
  else { s with closed := true, reader := .draining last }

/-- The answers are those a SYNACK receiver gets. -/
def step (s : ClosingSession) : ClosingEvent → ClosingSession × List (Nat × Bool)
  | .openStream =>
    if s.closed then (s, [])
    else ({ s with
      nextStreamId := s.nextStreamId + 1
      calls := s.calls ++ [⟨s.nextStreamId, .checked⟩] }, [])
  | .insertStream call =>
    match s.callAt call .checked with
    | none => (s, [])
    | some c => ({ s.setStage call c .streamInserted with
        streams := s.streams.insert c.streamId call }, [])
  | .insertSynack call =>
    match s.callAt call .streamInserted with
    | none => (s, [])
    | some c => ({ s.setStage call c .synackInserted with
        synacks := s.synacks.insert c.streamId call }, [])
  | .sendInitial call encoded =>
    match s.callAt call .synackInserted with
    | none => (s, [])
    | some c => (s.setStage call c (if encoded && s.writing then .opened else .failed), [])
  | .abandon call =>
    match s.calls[call]? with
    | none => (s, [])
    | some c =>
      if c.stage = .opened ∨ c.stage = .ended then (s, []) else (s.setStage call c .failed, [])
  | .endStream call =>
    match s.callAt call .opened with
    | none => (s, [])
    | some c => (s.setStage call c .ended, [])
  | .removeStream call =>
    match s.callAt call .ended with
    | none => (s, [])
    | some c => ({ s with streams := s.streams.remove c.streamId }, [])
  | .removeSynack call =>
    match s.callAt call .ended with
    | none => (s, [])
    | some c => ({ s with synacks := s.synacks.remove c.streamId }, [])
  | .close => ({ s with closed := true }, [])
  | .writeFails => if s.writing then ({ s with closed := true, writing := false }, []) else (s, [])
  | .fin streamId =>
    if s.reader = .reading then ({ s with streams := s.streams.remove streamId }, []) else (s, [])
  | .synack streamId accepted =>
    if s.reader = .reading then
      ({ s with synacks := s.synacks.remove streamId },
        (s.synacks.filter (·.1 = streamId)).map fun entry => (entry.2, accepted))
    else (s, [])
  | .alert => (s.closeSession false, [])
  | .readEnds => (s.closeSession true, [])
  | .drainSynacks =>
    match s.reader with
    | .draining last => ({ s with synacks := [], reader := .clearing last },
        s.synacks.map fun entry => (entry.2, false))
    | _ => (s, [])
  | .clearStreams =>
    match s.reader with
    | .clearing last =>
      ({ s with streams := [], reader := if last then .finished else .reading }, [])
    | _ => (s, [])

/-! ## Who waits -/

/-- The reader of the stream still has a sender, and so no end of stream. -/
def ReaderWaits (s : ClosingSession) (call : Nat) : Prop := ∃ streamId, (streamId, call) ∈ s.streams

def SynackWaits (s : ClosingSession) (call : Nat) : Prop := ∃ streamId, (streamId, call) ∈ s.synacks

/-- Once the flag is set and the read loop has finished, the maps are empty and nobody
waits. -/
def Resolved (s : ClosingSession) : Prop :=
  s.closed = true → s.reader = .finished →
    s.streams = [] ∧ s.synacks = [] ∧ ∀ call, ¬ s.ReaderWaits call ∧ ¬ s.SynackWaits call

/-- `close` does not set the flag before `close_session` while a stream is on the maps, and
once the flag is set no sender is put on a map that `close_session` will not clear. -/
def Settles (s : ClosingSession) : ClosingEvent → Prop
  | .close => s.closed = true ∨ (s.streams = [] ∧ s.synacks = [])
  | .writeFails => s.writing = true → s.closed = true ∨ (s.streams = [] ∧ s.synacks = [])
  | .insertStream call => s.callAt call .checked ≠ none → s.closed = false ∨
      ∃ last ∈ [true, false], s.reader = .draining last ∨ s.reader = .clearing last
  | .insertSynack call => s.callAt call .streamInserted ≠ none → s.closed = false ∨
      ∃ last ∈ [true, false], s.reader = .draining last
  | _ => True

instance (s : ClosingSession) : (event : ClosingEvent) → Decidable (s.Settles event)
  | .close | .writeFails | .insertStream _ | .insertSynack _ => by
    unfold Settles
    infer_instance
  | .openStream | .sendInitial .. | .abandon _ | .endStream _ | .removeStream _ | .removeSynack _
  | .fin _ | .synack .. | .alert | .readEnds | .drainSynacks | .clearStreams => .isTrue trivial

/-! ## Runs in which everyone is resolved -/

structure Inv (s : ClosingSession) : Prop where
  flag : s.reader ≠ .reading → s.closed = true
  clearing : ∀ last, s.reader = .clearing last → s.synacks = []
  cleared : s.closed = true → s.reader = .reading ∨ s.reader = .finished →
    s.streams = [] ∧ s.synacks = []

theorem Inv.resolved {s : ClosingSession} (h : s.Inv) : s.Resolved := by
  intro hclosed hfinished
  obtain ⟨hstreams,hsynacks⟩ := h.cleared hclosed (.inr hfinished)
  refine ⟨hstreams, hsynacks, fun call => ⟨?_, ?_⟩⟩
  · rintro ⟨streamId,hmem⟩
    exact absurd (hstreams ▸ hmem) List.not_mem_nil
  · rintro ⟨streamId,hmem⟩
    exact absurd (hsynacks ▸ hmem) List.not_mem_nil

variable {s s' : ClosingSession}

/-- Calls, ids and the write loop do not matter, and senders may go. -/
theorem Inv.fewer (h : s.Inv) (hclosed : s'.closed = s.closed) (hreader : s'.reader = s.reader)
    (hstreams : s.streams = [] → s'.streams = []) (hsynacks : s.synacks = [] → s'.synacks = []) :
    s'.Inv := by
  refine ⟨?_, ?_, ?_⟩
  · rw [hclosed, hreader]
    exact h.flag
  · rw [hreader]
    exact fun last hlast => hsynacks (h.clearing last hlast)
  · rw [hclosed, hreader]
    exact fun hc hr => (h.cleared hc hr).imp hstreams hsynacks

theorem remove_nil {m : SenderMap} (streamId : UInt32) (h : m = []) : m.remove streamId = [] := by
  rw [h, SenderMap.remove, List.filter_nil]

theorem Inv.setClosed (h : s.Inv) (hset : s.closed = true ∨ (s.streams = [] ∧ s.synacks = [])) :
    { s with closed := true }.Inv := by
  refine ⟨fun _ => rfl, h.clearing, fun _ hr => ?_⟩
  obtain hclosed | hempty := hset
  · exact h.cleared hclosed hr
  · exact hempty

theorem Inv.closeSession (h : s.Inv) (last : Bool) : (s.closeSession last).Inv := by
  rw [ClosingSession.closeSession]
  split
  case isTrue => exact h
  case isFalse hreading =>
    have hreading := not_ne_iff.mp hreading
    split
    case isTrue hclosed =>
      refine ⟨fun _ => hclosed, ?_, fun _ _ => h.cleared hclosed (.inl hreading)⟩
      intro last' hlast
      cases last <;> cases hlast
    case isFalse =>
      refine ⟨fun _ => rfl, nofun, ?_⟩
      rintro _ (hr | hr) <;> cases hr

theorem Inv.insertStream (h : s.Inv) (call : Nat) (hset : s.Settles (.insertStream call)) :
    (s.step (.insertStream call)).1.Inv := by
  rw [step]
  rw [Settles] at hset
  cases hcall : s.callAt call .checked with
  | none => exact h
  | some c =>
    have hset := hset (by rw [hcall]; nofun)
    refine ⟨h.flag, h.clearing, fun hclosed hreader => ?_⟩
    obtain hopen | ⟨last,_,hr | hr⟩ := hset
    · exact absurd (hopen.symm.trans hclosed) (by decide)
    all_goals
      change s.reader = _ ∨ s.reader = _ at hreader
      rw [hr] at hreader
      obtain hreader | hreader := hreader <;> cases hreader

theorem Inv.insertSynack (h : s.Inv) (call : Nat) (hset : s.Settles (.insertSynack call)) :
    (s.step (.insertSynack call)).1.Inv := by
  rw [step]
  rw [Settles] at hset
  cases hcall : s.callAt call .streamInserted with
  | none => exact h
  | some c =>
    have hset := hset (by rw [hcall]; nofun)
    refine ⟨h.flag, fun last hlast => ?_, fun hclosed hreader => ?_⟩
    · have hclosed := h.flag (by rw [show s.reader = _ from hlast]; nofun)
      obtain hopen | ⟨last',_,hr⟩ := hset
      · exact absurd (hopen.symm.trans hclosed) (by decide)
      · cases hr.symm.trans hlast
    · obtain hopen | ⟨last,_,hr⟩ := hset
      · exact absurd (hopen.symm.trans hclosed) (by decide)
      · change s.reader = _ ∨ s.reader = _ at hreader
        rw [hr] at hreader
        obtain hreader | hreader := hreader <;> cases hreader

theorem Inv.drainSynacks (h : s.Inv) : (s.step .drainSynacks).1.Inv := by
  rw [step]
  split
  case h_1 last hlast =>
    have hclosed := h.flag (by rw [hlast]; nofun)
    exact ⟨fun _ => hclosed, fun _ _ => rfl, by rintro _ (hr | hr) <;> cases hr⟩
  case h_2 => exact h

theorem Inv.clearStreams (h : s.Inv) : (s.step .clearStreams).1.Inv := by
  rw [step]
  split
  case h_1 last hlast =>
    have hclosed := h.flag (by rw [hlast]; nofun)
    refine ⟨fun _ => hclosed, fun last' hr => ?_, fun _ _ => ⟨rfl, h.clearing last hlast⟩⟩
    cases last <;> cases hr
  case h_2 => exact h

/-- Every step keeps the maps such that the read loop leaves them empty. -/
theorem step_inv (s : ClosingSession) (event : ClosingEvent) (h : s.Inv)
    (hset : s.Settles event) : (s.step event).1.Inv := by
  cases event with
  | openStream =>
    rw [step]
    split
    · exact h
    · exact h.fewer rfl rfl id id
  | insertStream call => exact h.insertStream call hset
  | insertSynack call => exact h.insertSynack call hset
  | sendInitial call encoded =>
    rw [step]
    split
    · exact h
    · exact h.fewer rfl rfl id id
  | abandon call =>
    rw [step]
    split
    · exact h
    · split
      · exact h
      · exact h.fewer rfl rfl id id
  | endStream call =>
    rw [step]
    split
    · exact h
    · exact h.fewer rfl rfl id id
  | removeStream call =>
    rw [step]
    split
    · exact h
    · exact h.fewer rfl rfl (remove_nil _) id
  | removeSynack call =>
    rw [step]
    split
    · exact h
    · exact h.fewer rfl rfl id (remove_nil _)
  | close => exact h.setClosed hset
  | writeFails =>
    rw [step]
    split
    case isTrue hwriting => exact (h.setClosed (hset hwriting)).fewer rfl rfl id id
    case isFalse => exact h
  | fin streamId =>
    rw [step]
    split
    · exact h.fewer rfl rfl (remove_nil _) id
    · exact h
  | synack streamId accepted =>
    rw [step]
    split
    · exact h.fewer rfl rfl id (remove_nil _)
    · exact h
  | alert => exact h.closeSession false
  | readEnds => exact h.closeSession true
  | drainSynacks => exact h.drainSynacks
  | clearStreams => exact h.clearStreams

theorem new_inv : new.Inv := ⟨nofun, nofun, nofun⟩

theorem run_inv (events : List ClosingEvent) (h : Meets step Settles new events) :
    (run step new events).1.Inv :=
  @run_invariant _ _ _ step Settles (fun s _ => s.Inv) (fun s _ event => step_inv s event) _ []
    new_inv events h

/-! ## Runs in which someone is left waiting -/

/-- The read loop ends where it is. -/
theorem stuck_reading (hclosed : s.closed = true) (hreader : s.reader = .reading)
    (hmaps : ¬ (s.streams = [] ∧ s.synacks = [])) : ∃ more, ¬ (run step s more).1.Resolved := by
  refine ⟨[.readEnds], fun hresolved => ?_⟩
  have hstep : (s.step .readEnds).1 = { s with reader := .finished } := by
    simp [step, closeSession, hclosed, hreader]
  rw [run, run, hstep] at hresolved
  obtain ⟨hstreams,hsynacks,_⟩ := hresolved hclosed rfl
  exact hmaps ⟨hstreams, hsynacks⟩

theorem stuck_finished (hclosed : s.closed = true) (hreader : s.reader = .finished)
    (hmaps : ¬ (s.streams = [] ∧ s.synacks = [])) : ∃ more, ¬ (run step s more).1.Resolved := by
  refine ⟨[], fun hresolved => ?_⟩
  obtain ⟨hstreams,hsynacks,_⟩ := hresolved hclosed hreader
  exact hmaps ⟨hstreams, hsynacks⟩

/-- Only the streams are cleared any more. -/
theorem stuck_clearing {last : Bool} (hclosed : s.closed = true)
    (hreader : s.reader = .clearing last) (hsynacks : s.synacks ≠ []) :
    ∃ more, ¬ (run step s more).1.Resolved := by
  have hstep : (s.step .clearStreams).1 =
      { s with streams := [], reader := if last then .finished else .reading } := by
    simp [step, hreader]
  have hmaps : ¬ ((s.step .clearStreams).1.streams = [] ∧
      (s.step .clearStreams).1.synacks = []) := by
    rw [hstep]
    exact fun hboth => hsynacks hboth.2
  have hclosed' : (s.step .clearStreams).1.closed = true := by
    rw [hstep]
    exact hclosed
  have hmore : ∃ more, ¬ (run step (s.step .clearStreams).1 more).1.Resolved := by
    cases last with
    | true => exact stuck_finished hclosed' (by rw [hstep]; rfl) hmaps
    | false => exact stuck_reading hclosed' (by rw [hstep]; rfl) hmaps
  obtain ⟨more,hmore⟩ := hmore
  exact ⟨.clearStreams :: more, hmore⟩

theorem stuck_of_flag (h : s.Inv) (hopen : s.closed = false)
    (hmaps : ¬ (s.streams = [] ∧ s.synacks = [])) (writing : Bool) :
    ∃ more, ¬ (run step { s with closed := true, writing := writing } more).1.Resolved := by
  refine stuck_reading rfl ?_ hmaps
  by_contra hreader
  exact absurd ((h.flag hreader).symm.trans hopen) (by decide)

/-- After an event that does not settle, the read loop can end with someone waiting. -/
theorem unsettled_stuck (h : s.Inv) (event : ClosingEvent) (hset : ¬ s.Settles event) :
    ∃ more, ¬ (run step (s.step event).1 more).1.Resolved := by
  cases event with
  | close =>
    rw [Settles, not_or, Bool.not_eq_true] at hset
    exact stuck_of_flag h hset.1 hset.2 s.writing
  | writeFails =>
    rw [Settles, Classical.not_imp, not_or, Bool.not_eq_true] at hset
    rw [step, if_pos hset.1]
    exact stuck_of_flag h hset.2.1 hset.2.2 false
  | insertStream call =>
    rw [Settles, Classical.not_imp, not_or, Bool.not_eq_false] at hset
    obtain ⟨hcall,hclosed,hreader⟩ := hset
    rw [step]
    cases hc : s.callAt call .checked with
    | none => exact absurd hc hcall
    | some c =>
      cases hr : s.reader with
      | reading => exact stuck_reading hclosed hr fun hmaps => absurd hmaps.1 (List.cons_ne_nil _ _)
      | finished =>
        exact stuck_finished hclosed hr fun hmaps => absurd hmaps.1 (List.cons_ne_nil _ _)
      | draining last => exact absurd ⟨last, by cases last <;> decide, .inl hr⟩ hreader
      | clearing last => exact absurd ⟨last, by cases last <;> decide, .inr hr⟩ hreader
  | insertSynack call =>
    rw [Settles, Classical.not_imp, not_or, Bool.not_eq_false] at hset
    obtain ⟨hcall,hclosed,hreader⟩ := hset
    rw [step]
    cases hc : s.callAt call .streamInserted with
    | none => exact absurd hc hcall
    | some c =>
      cases hr : s.reader with
      | reading => exact stuck_reading hclosed hr fun hmaps => absurd hmaps.2 (List.cons_ne_nil _ _)
      | finished =>
        exact stuck_finished hclosed hr fun hmaps => absurd hmaps.2 (List.cons_ne_nil _ _)
      | draining last => exact absurd ⟨last, by cases last <;> decide, hr⟩ hreader
      | clearing last => exact stuck_clearing hclosed hr (List.cons_ne_nil _ _)
  | _ => exact absurd trivial hset

end ClosingSession

/-- In every run whose events settle, the closing resolves everyone; and the first event
that does not settle can be followed by the end of the read loop with someone waiting. -/
theorem session_closing_resolves (events : List ClosingEvent)
    (h : Meets ClosingSession.step ClosingSession.Settles .new events) :
    (run ClosingSession.step .new events).1.Resolved ∧
      ∀ event, ¬ (run ClosingSession.step .new events).1.Settles event →
        ∃ more, ¬ (run ClosingSession.step .new (events ++ event :: more)).1.Resolved := by
  have hinv := ClosingSession.run_inv events h
  refine ⟨hinv.resolved, fun event hset => ?_⟩
  obtain ⟨more,hmore⟩ := ClosingSession.unsettled_stuck hinv event hset
  refine ⟨more, ?_⟩
  rw [run_append]
  exact hmore

/-- Two streams, one of them waiting for its SYNACK when the peer closes the connection. -/
def settledClosing : List ClosingEvent :=
  [.openStream, .insertStream 0, .insertSynack 0, .sendInitial 0 true, .synack 1 true, .openStream,
    .insertStream 1, .readEnds, .insertSynack 1, .drainSynacks, .sendInitial 1 true, .clearStreams]

theorem session_closing_resolves_sample :
    (run ClosingSession.step .new settledClosing).1.Resolved ∧
      ∀ event, ¬ (run ClosingSession.step .new settledClosing).1.Settles event →
        ∃ more, ¬ (run ClosingSession.step .new (settledClosing ++ event :: more)).1.Resolved :=
  session_closing_resolves settledClosing (by decide)

/-- A write fails with a stream open; the end of the read loop then finds the flag set, and
the stream's reader and its SYNACK wait on. -/
theorem failed_write_leaves_waiting :
    ¬ (run ClosingSession.step .new [.openStream, .insertStream 0, .insertSynack 0,
      .sendInitial 0 true, .writeFails, .readEnds]).1.Resolved := by
  intro hresolved
  exact absurd (hresolved (by decide) (by decide)).1 (by decide)

end AtlasKernel.AnyTls
