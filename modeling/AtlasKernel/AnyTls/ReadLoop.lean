import AtlasKernel.AnyTls.Padding
import AtlasKernel.AnyTls.SessionClosing
import Mathlib.Data.List.Nodup

/-! The read loop of an AnyTLS session: frames are decoded from what has been read, and the
data of a PUSH frame goes to the reader that is registered for its stream. Streams are
opened and ended by other tasks meanwhile. Source: `adapter/anytls.rs`. -/
namespace AtlasKernel.AnyTls
open AtlasKernel.Lib

inductive LoopPhase where
  | reading
  | decoding
  | ended
  | panicked
deriving DecidableEq, Repr

/-- `sent` is what the loop gives to the writer, `incoming` what each call of `open_stream`
has been sent for its stream. `held` is that the session has an owner. -/
structure ReadLoop where
  session : ClosingSession
  padding : PaddingFactory
  sent : List Frame
  incoming : Nat → List Bytes
  buffer : Bytes
  phase : LoopPhase
  held : Bool

/-- `task` is a step of another task, or one of `close_session` after its first. -/
inductive LoopEvent where
  | read (piece : Bytes)
  | readEnds
  | turn (draw : Nat → Nat → Nat)
  | task (event : ClosingEvent)
  | released

inductive LoopOutput where
  | received (piece : Bytes)
  | handed (frame : Frame)

/-- Events of the session that only the loop causes. -/
def ClosingEvent.ofLoop : ClosingEvent → Bool
  | .fin _ | .synack .. | .alert | .readEnds => true
  | _ => false

namespace ReadLoop

def new (padding : PaddingFactory) : ReadLoop :=
  ⟨.new, padding, [], fun _ => [], [], .reading, true⟩

def closing (s : ReadLoop) (event : ClosingEvent) : ReadLoop :=
  { s with session := (s.session.step event).1 }

def handleFrame (md5 : Md5) (draw : Nat → Nat → Nat) (s : ReadLoop) (frame : Frame) : ReadLoop :=
  if frame.cmd = cmdPush then
    match s.session.streams.find? (·.1 = frame.streamId) with
    | none => s
    | some (_, call) =>
      { s with incoming := Function.update s.incoming call (s.incoming call ++ [frame.data]) }
  else if frame.cmd = cmdFin then s.closing (.fin frame.streamId)
  else if frame.cmd = cmdSynack then s.closing (.synack frame.streamId frame.data.isEmpty)
  else if frame.cmd = cmdAlert then s.closing .alert
  else if frame.cmd = cmdUpdatePaddingScheme then
    match PaddingFactory.new md5 draw frame.data with
    | .ok next => { s with padding := next }
    | .error .panicked => { s with phase := .panicked }
    | .error _ => s
  else if frame.cmd = cmdHeartRequest then
    { s with sent := s.sent ++ [⟨cmdHeartResponse, frame.streamId, []⟩] }
  else s

/-- A turn of the inner loop is one step, up to the lock that the frame needs: before it
nothing but the loop's own buffer is touched. -/
def step (md5 : Md5) (s : ReadLoop) : LoopEvent → ReadLoop × List LoopOutput
  | .read piece =>
    if s.phase = .reading ∧ piece ≠ [] then
      ({ s with buffer := s.buffer ++ piece, phase := .decoding }, [.received piece])
    else (s, [])
  | .readEnds =>
    if s.phase = .reading then
      (if s.held then { s.closing .readEnds with phase := .ended } else { s with phase := .ended }, [])
    else (s, [])
  | .turn draw =>
    if s.phase = .decoding ∧ s.session.reader = .reading then
      match decodeFrame s.buffer with
      | none => ({ s with phase := .reading }, [])
      | some (frame, rest) =>
        -- without a session the loop returns, and its buffer is gone
        if s.held then (handleFrame md5 draw { s with buffer := rest } frame, [.handed frame])
        else ({ s with phase := .ended }, [])
    else (s, [])
  | .task event => (if event.ofLoop then s else s.closing event, [])
  | .released => ({ s with held := false }, [])

end ReadLoop

def handedIn (log : List LoopOutput) : List Frame :=
  log.filterMap fun | .handed frame => some frame | .received _ => none

def receivedIn (log : List LoopOutput) : Bytes :=
  log.flatMap fun | .received piece => piece | .handed _ => []

@[simp] theorem handedIn_append (log log' : List LoopOutput) :
    handedIn (log ++ log') = handedIn log ++ handedIn log' := List.filterMap_append

@[simp] theorem receivedIn_append (log log' : List LoopOutput) :
    receivedIn (log ++ log') = receivedIn log ++ receivedIn log' := List.flatMap_append

/-- The data of the PUSH frames of one stream. -/
def pushesTo (streamId : UInt32) (frames : List Frame) : List Bytes :=
  (frames.filter fun f => f.cmd = cmdPush ∧ f.streamId = streamId).map Frame.data

/-! ## Which padding frames panic -/

/-- The draws of sizes decide neither whether a line is accepted nor how many entries there
are. -/
def SameShape : Except PaddingError (Option UInt32 × List (List PaddingSize)) →
    Except PaddingError (Option UInt32 × List (List PaddingSize)) → Prop
  | .ok (stop, entries), .ok (stop', entries') => stop = stop' ∧ entries.length = entries'.length
  | .error err, .error err' => err = err'
  | _, _ => False

theorem setEntry_length (entries : List (List PaddingSize)) (index : Nat) (sizes : List PaddingSize) :
    (setEntry entries index sizes).length = max entries.length (index + 1) := by
  simp [setEntry]
  omega

theorem parseLine_sameShape (draw draw' : Nat → Nat) (line : List Char) (stop : Option UInt32)
    {entries entries' : List (List PaddingSize)} (h : entries.length = entries'.length) :
    SameShape (parseLine draw line stop entries) (parseLine draw' line stop entries') := by
  unfold parseLine
  cases splitOnce '=' (trim line) with
  | none => exact ⟨rfl,h⟩
  | some pair =>
    obtain ⟨key,value⟩ := pair
    by_cases hstop : key = "stop".toList
    · simp only [if_pos hstop]
      cases parseUnsigned 4294967295 value with
      | none => rfl
      | some n => exact ⟨rfl,h⟩
    · simp only [if_neg hstop]
      cases parseUnsigned 18446744073709551615 key with
      | none => exact ⟨rfl,h⟩
      | some index =>
        dsimp only
        rw [h]
        split
        · rfl
        · refine ⟨rfl,?_⟩
          rw [setEntry_length, setEntry_length, h]

theorem parseLines_sameShape (draw draw' : Nat → Nat → Nat) (i : Nat) (lines : List (List Char))
    (stop : Option UInt32) {entries entries' : List (List PaddingSize)}
    (h : entries.length = entries'.length) :
    SameShape (parseLines draw i lines stop entries) (parseLines draw' i lines stop entries') := by
  induction lines generalizing i stop entries entries' with
  | nil => exact ⟨rfl,h⟩
  | cons line lines ih =>
    have hline := parseLine_sameShape (draw i) (draw' i) line stop h
    rw [parseLines, parseLines]
    cases hl : parseLine (draw i) line stop entries with
    | error err =>
      cases hl' : parseLine (draw' i) line stop entries' with
      | error err' => simpa [hl, hl', SameShape] using hline
      | ok r => simp [hl, hl', SameShape] at hline
    | ok r =>
      cases hl' : parseLine (draw' i) line stop entries' with
      | error err' => simp [hl, hl', SameShape] at hline
      | ok r' =>
        rw [hl, hl'] at hline
        obtain ⟨hstop,hlen⟩ := hline
        simp only [hstop]
        exact ih (i + 1) r'.1 hlen

/-- The scheme names an entry that no vector can hold. -/
def PanicsPadding (raw : Bytes) : Prop :=
  parseLines (fun _ _ => 0) 0 (lines (fromUtf8Lossy raw)) none (List.replicate 32 []) = .error .panicked

instance (raw : Bytes) : Decidable (PanicsPadding raw) := inferInstanceAs (Decidable (_ = _))

theorem SameShape.panicked_iff {r r' : Except PaddingError (Option UInt32 × List (List PaddingSize))}
    (h : SameShape r r') : r = .error .panicked ↔ r' = .error .panicked := by
  cases r with
  | error err =>
    cases r' with
    | error err' =>
      have heq : err = err' := h
      simp [heq]
    | ok _ => exact h.elim
  | ok _ =>
    cases r' with
    | error _ => exact h.elim
    | ok _ => simp

theorem new_panicked_iff (md5 : Md5) (draw : Nat → Nat → Nat) (raw : Bytes) :
    PaddingFactory.new md5 draw raw = .error .panicked ↔ PanicsPadding raw := by
  rw [PanicsPadding, ← (parseLines_sameShape draw (fun _ _ => 0) 0 _ none rfl).panicked_iff]
  unfold PaddingFactory.new
  cases parseLines draw 0 (lines (fromUtf8Lossy raw)) none (List.replicate 32 []) with
  | error err => simp
  | ok r =>
    obtain ⟨stop,entries⟩ := r
    cases stop <;> simp

/-- A frame on which `handle_frame` panics. -/
def Frame.Panics (f : Frame) : Prop := f.cmd = cmdUpdatePaddingScheme ∧ PanicsPadding f.data

instance (f : Frame) : Decidable f.Panics := inferInstanceAs (Decidable (_ ∧ _))

/-! ## What a turn does -/

namespace ReadLoop
variable {md5 : Md5} {s : ReadLoop}

@[simp] theorem closing_buffer (s : ReadLoop) (event : ClosingEvent) :
    (s.closing event).buffer = s.buffer := rfl
@[simp] theorem closing_phase (s : ReadLoop) (event : ClosingEvent) :
    (s.closing event).phase = s.phase := rfl
@[simp] theorem closing_incoming (s : ReadLoop) (event : ClosingEvent) :
    (s.closing event).incoming = s.incoming := rfl
@[simp] theorem closing_held (s : ReadLoop) (event : ClosingEvent) :
    (s.closing event).held = s.held := rfl

/-- What `handle_frame` can do: keep the loop going or panic, and send to one reader. -/
inductive Handled (s : ReadLoop) (frame : Frame) (s' : ReadLoop) : Prop where
  | push (call : Nat) : frame.cmd = cmdPush →
      s.session.streams.find? (·.1 = frame.streamId) = some (frame.streamId, call) →
      s' = { s with incoming := Function.update s.incoming call (s.incoming call ++ [frame.data]) } →
      Handled s frame s'
  | dropped : frame.cmd = cmdPush → s.session.streams.find? (·.1 = frame.streamId) = none →
      s' = s → Handled s frame s'
  | closing (event : ClosingEvent) : frame.cmd ≠ cmdPush → event ≠ .readEnds →
      s' = s.closing event → Handled s frame s'
  | other (padding : PaddingFactory) (sent : List Frame) : frame.cmd ≠ cmdPush →
      s' = { s with padding := padding, sent := sent } → Handled s frame s'
  | panicked : frame.Panics → s' = { s with phase := .panicked } → Handled s frame s'

theorem handleFrame_handled (md5 : Md5) (draw : Nat → Nat → Nat) (s : ReadLoop) (frame : Frame) :
    Handled s frame (handleFrame md5 draw s frame) := by
  unfold handleFrame
  by_cases hpush : frame.cmd = cmdPush
  · rw [if_pos hpush]
    cases hfind : s.session.streams.find? (·.1 = frame.streamId) with
    | none => exact .dropped hpush hfind rfl
    | some entry =>
      have hid : entry.1 = frame.streamId := by
        simpa using List.find?_some hfind
      obtain ⟨streamId,call⟩ := entry
      subst hid
      exact .push call hpush hfind rfl
  · rw [if_neg hpush]
    by_cases hfin : frame.cmd = cmdFin
    · rw [if_pos hfin]
      exact .closing _ hpush (fun h => by cases h) rfl
    · rw [if_neg hfin]
      by_cases hsynack : frame.cmd = cmdSynack
      · rw [if_pos hsynack]
        exact .closing _ hpush (fun h => by cases h) rfl
      · rw [if_neg hsynack]
        by_cases halert : frame.cmd = cmdAlert
        · rw [if_pos halert]
          exact .closing _ hpush (fun h => by cases h) rfl
        · rw [if_neg halert]
          by_cases hupdate : frame.cmd = cmdUpdatePaddingScheme
          · rw [if_pos hupdate]
            cases hnew : PaddingFactory.new md5 draw frame.data with
            | ok next => exact .other next s.sent hpush rfl
            | error err =>
              cases err with
              | panicked => exact .panicked ⟨hupdate,(new_panicked_iff md5 draw _).mp hnew⟩ rfl
              | parseInt => exact .other s.padding s.sent hpush rfl
              | stopMissing => exact .other s.padding s.sent hpush rfl
          · rw [if_neg hupdate]
            by_cases hheart : frame.cmd = cmdHeartRequest
            · rw [if_pos hheart]
              exact .other s.padding _ hpush rfl
            · rw [if_neg hheart]
              exact .other s.padding s.sent hpush rfl

/-- What a step does, with what it puts out. -/
inductive StepDoes (s s' : ReadLoop) (out : List LoopOutput) : Prop where
  | handled (frame : Frame) (rest : Bytes) : s.phase = .decoding →
      decodeFrame s.buffer = some (frame, rest) → Handled { s with buffer := rest } frame s' →
      out = [.handed frame] → StepDoes s s' out
  | received (piece : Bytes) : s' = { s with buffer := s.buffer ++ piece, phase := .decoding } →
      out = [.received piece] → StepDoes s s' out
  | waits : decodeFrame s.buffer = none → s' = { s with phase := .reading } → out = [] →
      StepDoes s s' out
  | closing (event : ClosingEvent) : s' = s.closing event → out = [] → StepDoes s s' out
  | ends (event : ClosingEvent) : s' = { s.closing event with phase := .ended } → out = [] →
      StepDoes s s' out
  | owners (phase : LoopPhase) (held : Bool) : phase = s.phase ∨ phase = .ended →
      s' = { s with phase := phase, held := held } → out = [] → StepDoes s s' out

theorem step_does (md5 : Md5) (s : ReadLoop) (event : LoopEvent) :
    StepDoes s (step md5 s event).1 (step md5 s event).2 := by
  cases event with
  | read piece =>
    by_cases hread : s.phase = .reading ∧ piece ≠ []
    · rw [step, if_pos hread]
      exact .received piece rfl rfl
    · rw [step, if_neg hread]
      exact .owners s.phase s.held (.inl rfl) rfl rfl
  | readEnds =>
    by_cases hread : s.phase = .reading
    · rw [step, if_pos hread]
      by_cases hheld : s.held = true
      · rw [if_pos hheld]
        exact .ends .readEnds rfl rfl
      · rw [if_neg hheld]
        exact .owners .ended s.held (.inr rfl) rfl rfl
    · rw [step, if_neg hread]
      exact .owners s.phase s.held (.inl rfl) rfl rfl
  | turn draw =>
    by_cases hturn : s.phase = .decoding ∧ s.session.reader = .reading
    · rw [step, if_pos hturn]
      cases hdecode : decodeFrame s.buffer with
      | none => exact .waits hdecode rfl rfl
      | some r =>
        by_cases hheld : s.held = true
        · simp only [if_pos hheld]
          exact .handled r.1 r.2 hturn.1 hdecode (handleFrame_handled md5 draw _ r.1) rfl
        · simp only [if_neg hheld]
          exact .owners .ended s.held (.inr rfl) rfl rfl
    · rw [step, if_neg hturn]
      exact .owners s.phase s.held (.inl rfl) rfl rfl
  | task event =>
    rw [step]
    by_cases hloop : event.ofLoop = true
    · rw [if_pos hloop]
      exact .owners s.phase s.held (.inl rfl) rfl rfl
    · rw [if_neg hloop]
      exact .closing event rfl rfl
  | released => exact .owners s.phase false (.inl rfl) rfl rfl

end ReadLoop

/-! ## Who is registered -/

namespace ClosingSession
variable {s : ClosingSession}

theorem callAt_some {call : Nat} {stage : OpenStage} {c : OpenCall} (h : s.callAt call stage = some c) :
    s.calls[call]? = some c := by
  rw [callAt, Option.filter_eq_some_iff] at h
  exact h.1

/-- The stream id of a call. -/
def idOf (s : ClosingSession) (call : Nat) : Option UInt32 := (s.calls[call]?).map OpenCall.streamId

theorem setStage_idOf {call : Nat} {c : OpenCall} (h : s.calls[call]? = some c) (stage : OpenStage)
    (k : Nat) : (s.setStage call c stage).idOf k = s.idOf k := by
  rw [idOf, idOf, setStage]
  by_cases hk : call = k
  · subst hk
    have hlt := (List.getElem?_eq_some_iff.mp h).1
    rw [List.getElem?_set_self hlt, h]
    rfl
  · rw [List.getElem?_set_ne hk]

theorem closeSession_streams (s : ClosingSession) (last : Bool) :
    (s.closeSession last).streams = s.streams ∧ (s.closeSession last).calls = s.calls := by
  unfold closeSession
  split
  · exact ⟨rfl,rfl⟩
  · split <;> exact ⟨rfl,rfl⟩

/-- How a step leaves the calls and the map of the streams. -/
inductive StreamsStep (s s' : ClosingSession) : Prop where
  | keep : s'.streams = s.streams → StreamsStep s s'
  | insert (call : Nat) (streamId : UInt32) : s.idOf call = some streamId →
      s'.streams = s.streams.insert streamId call → StreamsStep s s'
  | remove (streamId : UInt32) : s'.streams = s.streams.remove streamId → StreamsStep s s'
  | clear : s'.streams = [] → StreamsStep s s'

theorem step_streams (s : ClosingSession) (event : ClosingEvent) :
    StreamsStep s (s.step event).1 := by
  cases event with
  | openStream =>
    rw [step]
    split <;> exact .keep rfl
  | insertStream call =>
    rw [step]
    cases hcall : s.callAt call .checked with
    | none => exact .keep rfl
    | some c => exact .insert call c.streamId (by simp [idOf, callAt_some hcall]) rfl
  | insertSynack call =>
    rw [step]
    split <;> exact .keep rfl
  | sendInitial call encoded =>
    rw [step]
    split <;> exact .keep rfl
  | abandon call =>
    rw [step]
    split
    · exact .keep rfl
    · split <;> exact .keep rfl
  | endStream call =>
    rw [step]
    split <;> exact .keep rfl
  | removeStream call =>
    rw [step]
    split
    · exact .keep rfl
    · exact .remove _ rfl
  | removeSynack call =>
    rw [step]
    split <;> exact .keep rfl
  | close => exact .keep rfl
  | writeFails =>
    rw [step]
    split <;> exact .keep rfl
  | fin streamId =>
    rw [step]
    split
    · exact .remove _ rfl
    · exact .keep rfl
  | synack streamId accepted =>
    rw [step]
    split <;> exact .keep rfl
  | alert => exact .keep (s.closeSession_streams false).1
  | readEnds => exact .keep (s.closeSession_streams true).1
  | drainSynacks =>
    rw [step]
    split <;> exact .keep rfl
  | clearStreams =>
    rw [step]
    split
    · exact .clear rfl
    · exact .keep rfl

/-- A call keeps its stream id. -/
theorem step_idOf (s : ClosingSession) (event : ClosingEvent) {call : Nat} {streamId : UInt32}
    (h : s.idOf call = some streamId) : (s.step event).1.idOf call = some streamId := by
  have hset : ∀ {k stage c} (stage'), s.callAt k stage = some c →
      (s.setStage k c stage').idOf call = some streamId := by
    intro k stage c stage' hcall
    rw [setStage_idOf (callAt_some hcall), h]
  cases event with
  | openStream =>
    rw [step]
    split
    · exact h
    · obtain ⟨c,hc,hid⟩ := Option.map_eq_some_iff.mp h
      have hlt := (List.getElem?_eq_some_iff.mp hc).1
      simp [idOf, List.getElem?_append_left hlt, hc, hid]
  | insertStream k | insertSynack k | sendInitial k _ | endStream k =>
    rw [step]
    split
    · exact h
    · next hcall => exact hset _ hcall
  | abandon k =>
    rw [step]
    split
    · exact h
    · next hcall =>
      split
      · exact h
      · rw [setStage_idOf hcall, h]
  | removeStream _ | removeSynack _ | writeFails | fin _ | synack _ _ | drainSynacks | clearStreams =>
    rw [step]
    split <;> exact h
  | close => exact h
  | alert => rwa [step, idOf, (s.closeSession_streams false).2]
  | readEnds => rwa [step, idOf, (s.closeSession_streams true).2]

/-- Every id stands for one call at most, and for one that has this id. -/
structure Registry (s : ClosingSession) : Prop where
  unique : (s.streams.map Prod.fst).Nodup
  own : ∀ streamId call, (streamId, call) ∈ s.streams → s.idOf call = some streamId

theorem Registry.step (h : s.Registry) (event : ClosingEvent) : (s.step event).1.Registry := by
  have hown : ∀ streamId call, (streamId, call) ∈ s.streams →
      (s.step event).1.idOf call = some streamId := fun streamId call hmem =>
    step_idOf s event (h.own streamId call hmem)
  have hless : ∀ streamId, ((s.streams.remove streamId).map Prod.fst).Nodup := fun streamId =>
    h.unique.sublist (List.filter_sublist.map Prod.fst)
  cases step_streams s event with
  | keep heq => exact ⟨heq ▸ h.unique,heq ▸ hown⟩
  | insert call streamId hid heq =>
    rw [SenderMap.insert] at heq
    refine ⟨?_,?_⟩
    · rw [heq, List.map_cons, List.nodup_cons]
      refine ⟨?_,hless streamId⟩
      simp
    · intro i k hmem
      rw [heq] at hmem
      cases hmem with
      | head => exact step_idOf s event hid
      | tail _ hmem => exact hown i k (List.mem_of_mem_filter hmem)
  | remove streamId heq =>
    refine ⟨heq ▸ hless streamId,?_⟩
    intro i k hmem
    rw [heq] at hmem
    exact hown i k (List.mem_of_mem_filter hmem)
  | clear heq =>
    refine ⟨by simp [heq],?_⟩
    intro i k hmem
    rw [heq] at hmem
    cases hmem

theorem Registry.find (h : s.Registry) {streamId : UInt32} {call : Nat} :
    s.streams.find? (·.1 = streamId) = some (streamId, call) ↔ (streamId, call) ∈ s.streams := by
  refine ⟨List.mem_of_find?_eq_some,fun hmem => ?_⟩
  cases hfind : s.streams.find? (·.1 = streamId) with
  | none =>
    rw [List.find?_eq_none] at hfind
    simpa using hfind _ hmem
  | some entry =>
    have hid : entry.1 = streamId := by simpa using List.find?_some hfind
    have hsame := List.inj_on_of_nodup_map h.unique (List.mem_of_find?_eq_some hfind) hmem hid
    rw [hsame]

end ClosingSession

namespace ReadLoop
variable {md5 : Md5} {s : ReadLoop}

/-- The reader of the call is the one that gets the data of the stream. -/
def Registered (s : ReadLoop) (streamId : UInt32) (call : Nat) : Prop :=
  (streamId, call) ∈ s.session.streams

theorem Handled.registry {frame : Frame} {s' : ReadLoop} (h : Handled s frame s')
    (hreg : s.session.Registry) : s'.session.Registry := by
  cases h with
  | push call hcmd hfind heq => rwa [heq]
  | dropped hcmd hfind heq => rwa [heq]
  | closing event hcmd hnot heq => rw [heq]; exact hreg.step event
  | other padding sent hcmd heq => rwa [heq]
  | panicked hpanics heq => rwa [heq]

theorem step_registry (md5 : Md5) (hreg : s.session.Registry) (event : LoopEvent) :
    (step md5 s event).1.session.Registry := by
  cases step_does md5 s event with
  | handled frame rest hphase hdecode hhandled hout => exact hhandled.registry hreg
  | received piece heq hout => rwa [heq]
  | waits hdecode heq hout => rwa [heq]
  | closing event heq hout => rw [heq]; exact hreg.step event
  | ends event heq hout => rw [heq]; exact hreg.step event
  | owners phase held hphase heq hout => rwa [heq]

theorem pushesTo_other {frame : Frame} {streamId : UInt32}
    (h : ¬ (frame.cmd = cmdPush ∧ frame.streamId = streamId)) : pushesTo streamId [frame] = [] := by
  simp [pushesTo, h]

theorem pushesTo_own {frame : Frame} (h : frame.cmd = cmdPush) :
    pushesTo frame.streamId [frame] = [frame.data] := by
  simp [pushesTo, h]

/-- A frame's data goes to the reader that is registered for its stream, and to no other. -/
theorem Handled.incoming {frame : Frame} {s' : ReadLoop} (h : Handled s frame s')
    (hreg : s.session.Registry) (call : Nat) :
    (∀ streamId, s.Registered streamId call →
      s'.incoming call = s.incoming call ++ pushesTo streamId [frame]) ∧
    ((∀ streamId, ¬ s.Registered streamId call) → s'.incoming call = s.incoming call) := by
  have hsilent : s'.incoming = s.incoming → frame.cmd ≠ cmdPush →
      (∀ streamId, s.Registered streamId call →
        s'.incoming call = s.incoming call ++ pushesTo streamId [frame]) ∧
      ((∀ streamId, ¬ s.Registered streamId call) → s'.incoming call = s.incoming call) := by
    intro hsame hcmd
    rw [hsame]
    refine ⟨fun streamId _ => ?_,fun _ => rfl⟩
    rw [pushesTo_other (fun hboth => hcmd hboth.1), List.append_nil]
  cases h with
  | push receiver hcmd hfind heq =>
    have hmem := hreg.find.mp hfind
    by_cases hcall : call = receiver
    · subst hcall
      refine ⟨fun streamId hstream => ?_,fun hnone => absurd hmem (hnone _)⟩
      have hid := (hreg.own _ _ hmem).symm.trans (hreg.own _ _ hstream)
      rw [Option.some.injEq] at hid
      rw [← hid, pushesTo_own hcmd, heq]
      simp
    · have hsame : s'.incoming call = s.incoming call := by
        rw [heq]
        exact Function.update_of_ne hcall _ _
      refine ⟨fun streamId hstream => ?_,fun _ => hsame⟩
      rw [hsame, pushesTo_other, List.append_nil]
      rintro ⟨-,hid⟩
      rw [hid, hreg.find.mpr hstream] at hfind
      exact hcall (congrArg Prod.snd (Option.some.inj hfind))
  | dropped hcmd hfind heq =>
    rw [heq]
    refine ⟨fun streamId hstream => ?_,fun _ => rfl⟩
    rw [pushesTo_other, List.append_nil]
    rintro ⟨-,hid⟩
    rw [hid, hreg.find.mpr hstream] at hfind
    cases hfind
  | closing event hcmd hnot heq => exact hsilent (by rw [heq]; rfl) hcmd
  | other padding sent hcmd heq => exact hsilent (by rw [heq]) hcmd
  | panicked hpanics heq =>
    refine hsilent (by rw [heq]) ?_
    rw [hpanics.1]
    decide

theorem step_incoming (md5 : Md5) (hreg : s.session.Registry) (event : LoopEvent) (call : Nat) :
    (∀ streamId, s.Registered streamId call → (step md5 s event).1.incoming call =
      s.incoming call ++ pushesTo streamId (handedIn (step md5 s event).2)) ∧
    ((∀ streamId, ¬ s.Registered streamId call) →
      (step md5 s event).1.incoming call = s.incoming call) := by
  have hsilent : (step md5 s event).1.incoming = s.incoming → handedIn (step md5 s event).2 = [] →
      (∀ streamId, s.Registered streamId call → (step md5 s event).1.incoming call =
        s.incoming call ++ pushesTo streamId (handedIn (step md5 s event).2)) ∧
      ((∀ streamId, ¬ s.Registered streamId call) →
        (step md5 s event).1.incoming call = s.incoming call) := by
    intro hsame hnone
    rw [hsame, hnone]
    exact ⟨fun _ _ => (List.append_nil _).symm,fun _ => rfl⟩
  cases step_does md5 s event with
  | handled frame rest hphase hdecode hhandled hout =>
    rw [hout]
    exact hhandled.incoming hreg call
  | received piece heq hout => exact hsilent (by rw [heq]) (by rw [hout]; rfl)
  | waits hdecode heq hout => exact hsilent (by rw [heq]) (by rw [hout]; rfl)
  | closing event heq hout => exact hsilent (by rw [heq]; rfl) (by rw [hout]; rfl)
  | ends event heq hout => exact hsilent (by rw [heq]; rfl) (by rw [hout]; rfl)
  | owners phase held hphase heq hout => exact hsilent (by rw [heq]) (by rw [hout]; rfl)

/-- As long as the reader is registered it gets the data of its stream, in order. -/
theorem run_registered (hreg : s.session.Registry) {streamId : UInt32} {call : Nat}
    {events : List LoopEvent} (h : Meets (step md5) (fun s _ => s.Registered streamId call) s events) :
    (run (step md5) s events).1.incoming call =
      s.incoming call ++ pushesTo streamId (handedIn (run (step md5) s events).2) := by
  induction events generalizing s with
  | nil => simp [run, handedIn, pushesTo]
  | cons event events ih =>
    obtain ⟨hnow,hthen⟩ := h
    have hstep := (step_incoming md5 hreg event call).1 streamId hnow
    rw [run, ih (step_registry md5 hreg event) hthen, hstep]
    simp [pushesTo]

theorem run_unregistered (hreg : s.session.Registry) {call : Nat} {events : List LoopEvent}
    (h : Meets (step md5) (fun s _ => ∀ streamId, ¬ s.Registered streamId call) s events) :
    (run (step md5) s events).1.incoming call = s.incoming call := by
  induction events generalizing s with
  | nil => rfl
  | cons event events ih =>
    obtain ⟨hnow,hthen⟩ := h
    rw [run, ih (step_registry md5 hreg event) hthen, (step_incoming md5 hreg event call).2 hnow]

theorem run_registry (hreg : s.session.Registry) (events : List LoopEvent) :
    (run (step md5) s events).1.session.Registry := by
  induction events generalizing s with
  | nil => exact hreg
  | cons event events ih => exact ih (step_registry md5 hreg event)

/-! ## Which frames are handed over -/

/-- The loop has taken what stands in front of its buffer, it waits only when no frame is
whole, and it panics only on the last frame it has taken. -/
structure Inv (s : ReadLoop) (log : List LoopOutput) : Prop where
  stands : receivedIn log = (handedIn log).flatMap Frame.bytes ++ s.buffer
  wellFormed : ∀ f ∈ handedIn log, f.WellFormed
  waits : s.phase = .reading → decodeFrame s.buffer = none
  panicked : s.phase = .panicked → ∃ init f, handedIn log = init ++ [f] ∧ f.Panics

theorem inv_new (padding : PaddingFactory) : (new padding).Inv [] := by
  refine ⟨rfl,?_,fun _ => rfl,?_⟩
  · intro f hf
    cases hf
  · intro h
    cases h

/-- A frame leaves the buffer to the loop, which goes on unless the frame panics. -/
theorem Handled.goes_on {frame : Frame} {s' : ReadLoop} (h : Handled s frame s') :
    s'.buffer = s.buffer ∧ s'.held = s.held ∧
      (s'.phase = s.phase ∨ s'.phase = .panicked ∧ frame.Panics) := by
  cases h with
  | push call hcmd hfind heq => rw [heq]; exact ⟨rfl,rfl,.inl rfl⟩
  | dropped hcmd hfind heq => rw [heq]; exact ⟨rfl,rfl,.inl rfl⟩
  | closing event hcmd hnot heq => rw [heq]; exact ⟨rfl,rfl,.inl rfl⟩
  | other padding sent hcmd heq => rw [heq]; exact ⟨rfl,rfl,.inl rfl⟩
  | panicked hpanics heq => rw [heq]; exact ⟨rfl,rfl,.inr ⟨rfl,hpanics⟩⟩

theorem Inv.step {log : List LoopOutput} (h : s.Inv log) (event : LoopEvent) :
    (step md5 s event).1.Inv (log ++ (step md5 s event).2) := by
  cases step_does md5 s event with
  | handled frame rest hphase hdecode hhandled hout =>
    obtain ⟨hwf,hbuffer⟩ := decodeFrame_some hdecode
    obtain ⟨hrest,-,hgoes⟩ := hhandled.goes_on
    have hrest' : (ReadLoop.step md5 s event).1.buffer = rest := hrest
    have hhanded : handedIn (log ++ [.handed frame]) = handedIn log ++ [frame] := by simp [handedIn]
    rw [hout]
    refine ⟨?_,?_,?_,?_⟩
    · rw [hrest', hhanded, receivedIn_append, h.stands, hbuffer]
      simp [receivedIn]
    · rw [hhanded]
      intro f hf
      rcases List.mem_append.mp hf with hf | hf
      · exact h.wellFormed f hf
      · exact List.mem_singleton.mp hf ▸ hwf
    · intro hreading
      rcases hgoes with hsame | ⟨hpanicked,-⟩
      · cases (hreading.symm.trans hsame).trans hphase
      · cases hreading.symm.trans hpanicked
    · intro hpanicked
      rcases hgoes with hsame | ⟨-,hpanics⟩
      · cases (hpanicked.symm.trans hsame).trans hphase
      · exact ⟨handedIn log,frame,hhanded,hpanics⟩
  | received piece heq hout =>
    have hhanded : handedIn (log ++ [.received piece]) = handedIn log := by simp [handedIn]
    rw [heq, hout]
    refine ⟨?_,?_,?_,?_⟩
    · rw [hhanded, receivedIn_append, h.stands]
      simp [receivedIn]
    · rw [hhanded]
      exact h.wellFormed
    · intro hreading
      cases hreading
    · intro hpanicked
      cases hpanicked
  | waits hdecode heq hout =>
    rw [heq, hout, List.append_nil]
    refine ⟨h.stands,h.wellFormed,fun _ => hdecode,?_⟩
    intro hpanicked
    cases hpanicked
  | closing event heq hout =>
    rw [heq, hout, List.append_nil]
    exact ⟨h.stands,h.wellFormed,h.waits,h.panicked⟩
  | ends event heq hout =>
    rw [heq, hout, List.append_nil]
    refine ⟨h.stands,h.wellFormed,?_,?_⟩
    · intro hreading
      cases hreading
    · intro hpanicked
      cases hpanicked
  | owners phase held hphase heq hout =>
    rw [heq, hout, List.append_nil]
    rcases hphase with rfl | rfl
    · exact ⟨h.stands,h.wellFormed,h.waits,h.panicked⟩
    · refine ⟨h.stands,h.wellFormed,?_,?_⟩
      · intro hreading
        cases hreading
      · intro hpanicked
        cases hpanicked

theorem Inv.run {log : List LoopOutput} (h : s.Inv log) (events : List LoopEvent) :
    (run (ReadLoop.step md5) s events).1.Inv (log ++ (run (ReadLoop.step md5) s events).2) := by
  induction events generalizing s log with
  | nil => simpa [Lib.run] using h
  | cons event events ih =>
    rw [Lib.run, ← List.append_assoc]
    exact ih (h.step event)

end ReadLoop

/-- Frames that are read from the front of a stream of frames are its first ones. -/
theorem frames_front {frames handed : List Frame} (hframes : ∀ f ∈ frames, f.WellFormed)
    (hhanded : ∀ f ∈ handed, f.WellFormed) {buffer more : Bytes}
    (h : handed.flatMap Frame.bytes ++ buffer ++ more = frames.flatMap Frame.bytes) :
    ∃ left, frames = handed ++ left ∧ buffer ++ more = left.flatMap Frame.bytes := by
  induction handed generalizing frames with
  | nil => exact ⟨frames,rfl,h⟩
  | cons f handed ih =>
    obtain ⟨hf,hmore⟩ := List.forall_mem_cons.mp hhanded
    have hfirst := decodeFrame_bytes hf (handed.flatMap Frame.bytes ++ buffer ++ more)
    rw [← List.append_assoc, ← List.append_assoc, ← List.flatMap_cons, h] at hfirst
    cases frames with
    | nil => cases hfirst
    | cons g frames =>
      obtain ⟨hg,hframes⟩ := List.forall_mem_cons.mp hframes
      rw [List.flatMap_cons, decodeFrame_bytes hg, Option.some.injEq, Prod.mk.injEq] at hfirst
      obtain ⟨rfl,hrest⟩ := hfirst
      obtain ⟨left,rfl,hleft⟩ := ih hframes hmore hrest.symm
      exact ⟨left,rfl,hleft⟩

/-- The concatenation that `append_frame` makes. -/
def appendFrames : List Frame → Bytes → Except String Bytes
  | [], out => .ok out
  | f :: frames, out =>
    match appendFrame out f.cmd f.streamId f.data with
    | .error err => .error err
    | .ok out => appendFrames frames out

theorem appendFrames_ok {frames : List Frame} {out bytes : Bytes}
    (h : appendFrames frames out = .ok bytes) :
    (∀ f ∈ frames, f.WellFormed) ∧ bytes = out ++ frames.flatMap Frame.bytes := by
  induction frames generalizing out with
  | nil =>
    cases h
    exact ⟨fun f hf => absurd hf List.not_mem_nil,by simp⟩
  | cons f frames ih =>
    rw [appendFrames] at h
    cases hone : appendFrame out f.cmd f.streamId f.data with
    | error err =>
      rw [hone] at h
      cases h
    | ok out' =>
      rw [hone] at h
      obtain ⟨hf,rfl⟩ := appendFrame_eq_ok hone
      obtain ⟨hframes,rfl⟩ := ih h
      exact ⟨List.forall_mem_cons.mpr ⟨hf,hframes⟩,by simp⟩

def readRun (md5 : Md5) (padding : PaddingFactory) (events : List LoopEvent) :
    ReadLoop × List LoopOutput :=
  run (ReadLoop.step md5) (.new padding) events

/-- After a run whose reads are a beginning of the stream: the frames that have arrived have
been handed over in order, the loop waits only for a frame that is not whole and stops only
behind the last one; and in every stretch of the run in which a call is registered for a
stream, its reader has got the data of that stream, and nothing in any other stretch. -/
structure ReadsExactly (md5 : Md5) (padding : PaddingFactory) (frames : List Frame)
    (events : List LoopEvent) : Prop where
  in_order : ∃ left, frames = handedIn (readRun md5 padding events).2 ++ left ∧
    receivedIn (readRun md5 padding events).2 =
      (handedIn (readRun md5 padding events).2).flatMap Frame.bytes ++
        (readRun md5 padding events).1.buffer ∧
    ((readRun md5 padding events).1.phase = .reading →
      ∀ f ∈ left.head?, ¬ f.bytes <+: (readRun md5 padding events).1.buffer) ∧
    ((readRun md5 padding events).1.phase = .panicked → left = [])
  queued : ∀ front back, events = front ++ back → ∀ streamId call,
    Meets (ReadLoop.step md5) (fun s _ => s.Registered streamId call) (readRun md5 padding front).1 back →
    ∀ gained, handedIn (readRun md5 padding events).2 =
        handedIn (readRun md5 padding front).2 ++ gained →
      (readRun md5 padding events).1.incoming call =
        (readRun md5 padding front).1.incoming call ++ pushesTo streamId gained
  silent : ∀ front back, events = front ++ back → ∀ call,
    Meets (ReadLoop.step md5) (fun s _ => ∀ streamId, ¬ s.Registered streamId call)
      (readRun md5 padding front).1 back →
    (readRun md5 padding events).1.incoming call = (readRun md5 padding front).1.incoming call
  registry : (readRun md5 padding events).1.session.Registry

variable {md5 : Md5} {padding : PaddingFactory} {frames : List Frame}

theorem registry_new : ClosingSession.new.Registry := by
  refine ⟨List.nodup_nil,?_⟩
  intro streamId call h
  cases h

theorem readRun_inv (md5 : Md5) (padding : PaddingFactory) (events : List LoopEvent) :
    (readRun md5 padding events).1.Inv (readRun md5 padding events).2 :=
  (ReadLoop.inv_new padding).run events

theorem readRun_registry (md5 : Md5) (padding : PaddingFactory) (events : List LoopEvent) :
    (readRun md5 padding events).1.session.Registry :=
  ReadLoop.run_registry registry_new events

theorem readRun_append (md5 : Md5) (padding : PaddingFactory) (front back : List LoopEvent) :
    readRun md5 padding (front ++ back) =
      ((run (ReadLoop.step md5) (readRun md5 padding front).1 back).1,
        (readRun md5 padding front).2 ++ (run (ReadLoop.step md5) (readRun md5 padding front).1 back).2) :=
  run_append _ front back

theorem readsExactly_of_calm (hframes : ∀ f ∈ frames, f.WellFormed)
    (hcalm : ∀ f ∈ frames.dropLast, ¬ f.Panics) {events : List LoopEvent}
    (hread : receivedIn (readRun md5 padding events).2 <+: frames.flatMap Frame.bytes) :
    ReadsExactly md5 padding frames events := by
  have hinv := readRun_inv md5 padding events
  refine ⟨?_,?_,?_,readRun_registry md5 padding events⟩
  · obtain ⟨more,hmore⟩ := hread
    rw [hinv.stands] at hmore
    obtain ⟨left,hsplit,hleft⟩ := frames_front hframes hinv.wellFormed hmore
    refine ⟨left,hsplit,hinv.stands,?_,?_⟩
    · rintro hreading f hf ⟨rest,hrest⟩
      have hwf : f.WellFormed := hframes f (by
        rw [hsplit]
        exact List.mem_append_right _ (List.mem_of_mem_head? hf))
      have hnone := hinv.waits hreading
      rw [← hrest, decodeFrame_bytes hwf] at hnone
      cases hnone
    · intro hpanicked
      obtain ⟨init,f,hlast,hpanics⟩ := hinv.panicked hpanicked
      by_contra hne
      refine hcalm f ?_ hpanics
      rw [hsplit, hlast, List.dropLast_append_of_ne_nil hne]
      simp
  · intro front back hevents streamId call hmeets gained hgained
    subst hevents
    rw [readRun_append] at hgained ⊢
    rw [handedIn_append] at hgained
    rw [← List.append_cancel_left hgained]
    exact ReadLoop.run_registered (readRun_registry md5 padding front) hmeets
  · intro front back hevents call hmeets
    subst hevents
    rw [readRun_append]
    exact ReadLoop.run_unregistered (readRun_registry md5 padding front) hmeets

/-! ## A run into a panic -/

/-- One turn, and the rest of `close_session` if the frame was an alert. -/
def wholeTurn : List LoopEvent :=
  [.turn fun _ _ => 0, .task .drainSynacks, .task .clearStreams]

/-- The loop is about to take the first of these bytes. -/
structure ReadLoop.Ready (s : ReadLoop) (bytes : Bytes) : Prop where
  decoding : s.phase = .decoding
  reader : s.session.reader = .reading
  held : s.held = true
  buffered : s.buffer = bytes

theorem ClosingSession.closed_reader {c : ClosingSession} (h : c.reader = .reading)
    {event : ClosingEvent} (hnot : event ≠ .readEnds) :
    (((c.step event).1.step .drainSynacks).1.step .clearStreams).1.reader = .reading := by
  have hstep : (c.step event).1.reader = .reading ∨ (c.step event).1.reader = .draining false := by
    cases event with
    | readEnds => exact absurd rfl hnot
    | alert =>
      rw [step, closeSession, if_neg (not_not.mpr h)]
      split
      · exact .inl rfl
      · exact .inr rfl
    | drainSynacks | clearStreams => simp [step, h]
    | openStream | insertStream _ | insertSynack _ | sendInitial _ _ | endStream _
    | removeStream _ | removeSynack _ | writeFails | fin _ | synack _ _ =>
      rw [step]
      split <;> exact .inl h
    | abandon _ =>
      rw [step]
      split
      · exact .inl h
      · split <;> exact .inl h
    | close => exact .inl h
  generalize (c.step event).1 = d at hstep
  rcases hstep with hreading | hdraining
  · simp [step, hreading]
  · simp [step, hdraining]

theorem ReadLoop.Ready.turn {s : ReadLoop} {f : Frame} {rest : Bytes} (h : s.Ready (f.bytes ++ rest))
    (hf : f.WellFormed) : (step md5 s (.turn fun _ _ => 0)).2 = [.handed f] ∧
      Handled { s with buffer := rest } f (step md5 s (.turn fun _ _ => 0)).1 := by
  have hdecode : decodeFrame s.buffer = some (f, rest) := by
    rw [h.buffered, decodeFrame_bytes hf]
  have hstep : step md5 s (.turn fun _ _ => 0) =
      (handleFrame md5 (fun _ _ => 0) { s with buffer := rest } f, [.handed f]) := by
    simp [step, h.decoding, h.reader, hdecode, h.held]
  rw [hstep]
  exact ⟨rfl,handleFrame_handled md5 _ _ f⟩

/-- Nothing that `handle_frame` does to the session keeps the loop from its next turn. -/
theorem ReadLoop.Handled.reader {s s' : ReadLoop} {f : Frame} (h : Handled s f s')
    (hreader : s.session.reader = .reading) :
    ((s'.session.step .drainSynacks).1.step .clearStreams).1.reader = .reading := by
  have hkept : ((s.session.step .drainSynacks).1.step .clearStreams).1.reader = .reading := by
    simp [ClosingSession.step, hreader]
  cases h with
  | push call hcmd hfind heq => rwa [heq]
  | dropped hcmd hfind heq => rwa [heq]
  | closing event hcmd hnot heq => rw [heq]; exact ClosingSession.closed_reader hreader hnot
  | other padding sent hcmd heq => rwa [heq]
  | panicked hpanics heq => rwa [heq]

theorem ReadLoop.Ready.wholeTurn {s : ReadLoop} {f : Frame} {rest : Bytes}
    (h : s.Ready (f.bytes ++ rest)) (hf : f.WellFormed) (hcalm : ¬ f.Panics) :
    (run (step md5) s wholeTurn).1.Ready rest ∧ (run (step md5) s wholeTurn).2 = [.handed f] := by
  obtain ⟨hout,hhandled⟩ := @turn md5 s f rest h hf
  obtain ⟨hbuffer,hheld,hphase⟩ := hhandled.goes_on
  have hreader := hhandled.reader h.reader
  refine ⟨⟨?_,hreader,hheld.trans h.held,hbuffer⟩,?_⟩
  · rcases hphase with hsame | ⟨-,hpanics⟩
    · exact hsame.trans h.decoding
    · exact absurd hpanics hcalm
  · rw [AnyTls.wholeTurn, run, hout]
    rfl

theorem ReadLoop.Ready.run_calm {s : ReadLoop} {frames : List Frame} {rest : Bytes}
    (h : s.Ready (frames.flatMap Frame.bytes ++ rest)) (hframes : ∀ f ∈ frames, f.WellFormed)
    (hcalm : ∀ f ∈ frames, ¬ f.Panics) :
    (run (step md5) s (frames.flatMap fun _ => AnyTls.wholeTurn)).1.Ready rest ∧
      (run (step md5) s (frames.flatMap fun _ => AnyTls.wholeTurn)).2 = frames.map .handed := by
  induction frames generalizing s with
  | nil => exact ⟨h,rfl⟩
  | cons f frames ih =>
    obtain ⟨hf,hframes⟩ := List.forall_mem_cons.mp hframes
    obtain ⟨hone,hcalm⟩ := List.forall_mem_cons.mp hcalm
    rw [List.flatMap_cons, List.append_assoc] at h
    obtain ⟨hready,hout⟩ := @Ready.wholeTurn md5 s f _ h hf hone
    obtain ⟨hlast,hmore⟩ := ih hready hframes hcalm
    rw [List.flatMap_cons, run_append, hout, hmore]
    exact ⟨hlast,rfl⟩

theorem ReadLoop.Ready.panics {s : ReadLoop} {f : Frame} {rest : Bytes} (h : s.Ready (f.bytes ++ rest))
    (hf : f.WellFormed) (hpanics : f.Panics) :
    (step md5 s (.turn fun _ _ => 0)).1.phase = .panicked ∧
      (step md5 s (.turn fun _ _ => 0)).2 = [.handed f] := by
  obtain ⟨hout,-⟩ := @turn md5 s f rest h hf
  refine ⟨?_,hout⟩
  have hdecode : decodeFrame s.buffer = some (f, rest) := by
    rw [h.buffered, decodeFrame_bytes hf]
  have hnew : PaddingFactory.new md5 (fun _ _ => 0) f.data = .error .panicked :=
    (new_panicked_iff md5 _ _).mpr hpanics.2
  have hcmd : f.cmd = cmdUpdatePaddingScheme := hpanics.1
  simp [step, h.decoding, h.reader, hdecode, h.held, handleFrame, hcmd, hnew, cmdPush, cmdFin,
    cmdSynack, cmdAlert, cmdUpdatePaddingScheme]

/-- Everything is read at once and taken up to the first frame on which the loop panics. -/
theorem exists_panic (hframes : ∀ f ∈ frames, f.WellFormed) {before after : List Frame} {f : Frame}
    (hsplit : frames = before ++ f :: after) (hbefore : ∀ g ∈ before, ¬ g.Panics) (hf : f.Panics) :
    ∃ events, receivedIn (readRun md5 padding events).2 = frames.flatMap Frame.bytes ∧
      handedIn (readRun md5 padding events).2 = before ++ [f] ∧
      (readRun md5 padding events).1.phase = .panicked := by
  have hne : frames.flatMap Frame.bytes ≠ [] := by
    rw [hsplit, List.flatMap_append]
    simp [Frame.bytes]
  have hfirst : (ReadLoop.step md5 (.new padding) (.read (frames.flatMap Frame.bytes))) =
      ({ ReadLoop.new padding with buffer := frames.flatMap Frame.bytes, phase := .decoding },
        [.received (frames.flatMap Frame.bytes)]) := by
    simp [ReadLoop.step, ReadLoop.new, hne]
  have hready : ReadLoop.Ready { ReadLoop.new padding with
      buffer := frames.flatMap Frame.bytes, phase := .decoding }
      (before.flatMap Frame.bytes ++ (f.bytes ++ after.flatMap Frame.bytes)) :=
    ⟨rfl,rfl,rfl,by simp [hsplit]⟩
  have hall : ∀ g ∈ before, g.WellFormed := fun g hg =>
    hframes g (hsplit ▸ List.mem_append_left _ hg)
  have hwf : f.WellFormed := hframes f (by simp [hsplit])
  obtain ⟨hlast,hout⟩ := @ReadLoop.Ready.run_calm md5 _ _ _ hready hall hbefore
  obtain ⟨hphase,hone⟩ := @ReadLoop.Ready.panics md5 _ _ _ hlast hwf hf
  have hlog : (readRun md5 padding (.read (frames.flatMap Frame.bytes) ::
      (before.flatMap (fun _ => wholeTurn) ++ [.turn fun _ _ => 0]))).2 =
        .received (frames.flatMap Frame.bytes) :: (before.map .handed ++ [.handed f]) := by
    rw [readRun, run, hfirst, run_append, hout, run, hone]
    rfl
  refine ⟨.read (frames.flatMap Frame.bytes) ::
    (before.flatMap (fun _ => wholeTurn) ++ [.turn fun _ _ => 0]),?_,?_,?_⟩
  · rw [hlog]
    simp [receivedIn, List.flatMap_map]
  · rw [hlog]
    simp [handedIn, List.filterMap_map]
  · rw [readRun, run, hfirst, run_append]
    exact hphase

theorem exists_not_exact (hframes : ∀ f ∈ frames, f.WellFormed) {before after : List Frame} {f : Frame}
    (hsplit : frames = before ++ f :: after) (hbefore : ∀ g ∈ before, ¬ g.Panics) (hf : f.Panics)
    (hafter : after ≠ []) : ∃ events,
      receivedIn (readRun md5 padding events).2 <+: frames.flatMap Frame.bytes ∧
        ¬ ReadsExactly md5 padding frames events := by
  obtain ⟨events,hread,hhanded,hphase⟩ := @exists_panic md5 padding frames hframes before after f
    hsplit hbefore hf
  refine ⟨events,⟨[],by simp [hread]⟩,fun hexact => ?_⟩
  obtain ⟨left,hleft,-,-,hstops⟩ := hexact.in_order
  rw [hstops hphase, hhanded, hsplit] at hleft
  simp at hleft
  exact hafter hleft

/-- The frames of a stream are handed over exactly, under every cut into reads and every
interleaving with the other tasks, if and only if no frame before the last one makes
`handle_frame` panic. -/
theorem read_loop_exact_iff (md5 : Md5) (padding : PaddingFactory) (frames : List Frame) (bytes : Bytes)
    (h : appendFrames frames [] = .ok bytes) :
    (∀ events, receivedIn (readRun md5 padding events).2 <+: bytes →
      ReadsExactly md5 padding frames events) ↔ ∀ f ∈ frames.dropLast, ¬ f.Panics := by
  obtain ⟨hframes,hbytes⟩ := appendFrames_ok h
  rw [List.nil_append] at hbytes
  subst hbytes
  refine ⟨fun hexact => ?_,fun hcalm events => readsExactly_of_calm hframes hcalm⟩
  by_contra hpanics
  obtain ⟨before,f,after,hsplit,hbefore,hf⟩ := exists_first hpanics
  cases frames.eq_nil_or_concat with
  | inl hnil =>
    rw [hnil] at hsplit
    simp at hsplit
  | inr hconcat =>
    obtain ⟨init,last,hlast⟩ := hconcat
    rw [List.concat_eq_append] at hlast
    rw [hlast, List.dropLast_concat] at hsplit
    have hwhole : frames = before ++ f :: (after ++ [last]) := by
      rw [hlast, hsplit]
      simp
    obtain ⟨events,hread,hnot⟩ := @exists_not_exact md5 padding frames hframes before _ f hwhole hbefore
      (not_not.mp hf) (by simp)
    exact hnot (hexact events hread)

/-- The answer to a SYN, data of two streams, and an alert. -/
def sampleFrames : List Frame :=
  [⟨cmdSynack, 1, []⟩, ⟨cmdPush, 1, [1, 2]⟩, ⟨cmdPush, 2, [3]⟩, ⟨cmdAlert, 0, []⟩]

theorem read_loop_exact_sample :
    (∀ events, receivedIn (readRun (fun _ => Vector.replicate 16 0) ⟨[], 0, []⟩ events).2 <+:
        sampleFrames.flatMap Frame.bytes →
      ReadsExactly (fun _ => Vector.replicate 16 0) ⟨[], 0, []⟩ sampleFrames events) ↔
      ∀ f ∈ sampleFrames.dropLast, ¬ f.Panics :=
  read_loop_exact_iff _ _ sampleFrames _ (by decide +kernel)

/-- A padding scheme with the entry 9223372036854775807, and data behind it. -/
def hugeIndexFrames : List Frame :=
  [⟨cmdUpdatePaddingScheme, 0, utf8 "9223372036854775807=c".toList⟩, ⟨cmdPush, 1, [7]⟩]

/-- The loop panics on the padding scheme, and the data is not read. -/
theorem huge_index_stops_reading : ¬ ∀ (md5 : Md5) (padding : PaddingFactory) (frames : List Frame),
    (∀ f ∈ frames, f.WellFormed) → ∀ events,
      receivedIn (readRun md5 padding events).2 <+: frames.flatMap Frame.bytes →
        ReadsExactly md5 padding frames events := by
  intro h
  have hframes : ∀ f ∈ hugeIndexFrames, f.WellFormed := by decide +kernel
  have hpanics : (⟨cmdUpdatePaddingScheme, 0, utf8 "9223372036854775807=c".toList⟩ : Frame).Panics := by
    decide +kernel
  obtain ⟨events,hread,hnot⟩ := @exists_not_exact (fun _ => Vector.replicate 16 0) ⟨[], 0, []⟩
    hugeIndexFrames hframes [] [⟨cmdPush, 1, [7]⟩] _ rfl (fun g hg => absurd hg List.not_mem_nil) hpanics
    (by simp)
  exact hnot (h _ _ hugeIndexFrames hframes events hread)

end AtlasKernel.AnyTls
