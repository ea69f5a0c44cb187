import AtlasKernel.Lib.FrameDecoder
import AtlasKernel.Lib.ReadCuts
import AtlasKernel.Lib.Session

/-! A poll-based reader that parses what it reads into frames. It answers from its output
buffer, parses what it has, or reads a chunk more; a stream that ends within a frame is
an error. What its callers get is what the decoder makes of the whole stream. -/
namespace AtlasKernel.Lib
variable {σ α : Type*}

structure FramedReader (σ α : Type*) where
  source : Source α
  state : σ
  raw : List α
  buffer : List α
deriving DecidableEq, Repr

/-- `drain` moves what whole frames carry from the raw bytes to the output, and says whether
there was a frame. -/
structure FrameParser (σ α : Type*) where
  drain : σ → List α → List α → IoResult Bool × List α × List α × σ
  chunk : Nat
  early : IoError

namespace FramedReader

/-- What goes to the caller and what stays, or `none` if nothing moves. -/
def handOut (buffer : List α) (room : Nat) : Option (List α × List α) :=
  if buffer = [] ∨ room = 0 then none else some (buffer.take room, buffer.drop room)

/-- The head of the loop. -/
def serve (p : FrameParser σ α) (s : FramedReader σ α) (room : Nat) :
    Option (Poll (IoResult (List α))) × FramedReader σ α :=
  match p.drain s.state s.raw s.buffer with
  | (.error err, raw, buffer, state) => (some (.ready (.error err)), ⟨s.source, state, raw, buffer⟩)
  | (.ok drained, raw, buffer, state) =>
    match if drained then handOut buffer room else none with
    | some (out, rest) => (some (.ready (.ok out)), ⟨s.source, state, raw, rest⟩)
    | none => (none, ⟨s.source, state, raw, buffer⟩)

theorem serve_source (p : FrameParser σ α) (s : FramedReader σ α) (room : Nat) :
    (s.serve p room).2.source = s.source := by
  rw [serve]
  split
  · rfl
  · split <;> rfl

def receiveLoop (p : FrameParser σ α) (s : FramedReader σ α) (room : Nat) :
    Poll (IoResult (List α)) × FramedReader σ α :=
  match _hs : s.serve p room with
  | (some r, s') => (r, s')
  | (none, s') =>
    match _h : Lib.pollRead p.chunk s'.source with
    | (.pending, source) => (.pending, { s' with source := source })
    | (.ready (.error err), source) => (.ready (.error err), { s' with source := source })
    | (.ready (.ok filled), source) =>
      if _hp : filled = [] then
        if s'.raw = [] then (.ready (.ok []), { s' with source := source })
        else (.ready (.error p.early), { s' with source := source })
      else receiveLoop p { s' with source := source, raw := s'.raw ++ filled } room
termination_by sourceSize s.source
decreasing_by
  have hsame := serve_source p s room
  rw [_hs] at hsame
  rw [← hsame]
  exact sourceSize_pollRead _h _hp

def pollRead (p : FrameParser σ α) (s : FramedReader σ α) (room : Nat) :
    Poll (IoResult (List α)) × FramedReader σ α :=
  match handOut s.buffer room with
  | some (out, rest) => (.ready (.ok out), { s with buffer := rest })
  | none => s.receiveLoop p room

theorem handOut_none {buffer : List α} {room : Nat} (h : handOut buffer room = none) (hroom : 0 < room) :
    buffer = [] := by
  rw [handOut] at h
  split at h
  case isTrue hcase => exact hcase.resolve_right (Nat.ne_of_gt hroom)
  case isFalse => cases h

theorem handOut_some {buffer out rest : List α} {room : Nat} (h : handOut buffer room = some (out, rest)) :
    out ++ rest = buffer ∧ out ≠ [] := by
  rw [handOut] at h
  split at h
  case isTrue => cases h
  case isFalse hcase =>
    cases h
    refine ⟨List.take_append_drop .., fun hnil => hcase ?_⟩
    obtain hroom | hbuffer := List.take_eq_nil_iff.mp hnil
    · exact .inr hroom
    · exact .inl hbuffer

end FramedReader

/-- The parser moves what the decoder puts out. -/
structure FrameParser.Follows (p : FrameParser σ α) (c : FrameDecoder σ α α IoError) : Prop where
  chunk_pos : 0 < p.chunk
  moves : ∀ state raw buffer, (p.drain state raw buffer).2 =
    ((c.run state raw).rest, buffer ++ (c.run state raw).out, (c.run state raw).state)
  flag : ∀ state raw buffer, (c.run state raw).fault = none →
    ∃ drained, (p.drain state raw buffer).1 = .ok drained ∧ (drained = false → (c.run state raw).out = [])
  fails : ∀ state raw buffer, ∀ err ∈ (c.run state raw).fault,
    (p.drain state raw buffer).1 = .error err

namespace FramedReader
open FrameDecoder
variable {p : FrameParser σ α} {c : FrameDecoder σ α α IoError} {s : FramedReader σ α}
  {delivered : List α}

/-- What the head of the loop makes of the raw bytes. -/
theorem serve_cases (h : p.Follows c) (hempty : s.buffer = []) {room : Nat} (hroom : 0 < room) :
    (∃ err s', (c.run s.state s.raw).fault = some err ∧
      s.serve p room = (some (.ready (.error err)), s')) ∨
    (∃ out rest, (c.run s.state s.raw).fault = none ∧ (c.run s.state s.raw).out = out ++ rest ∧
      out ≠ [] ∧ s.serve p room = (some (.ready (.ok out)),
        ⟨s.source, (c.run s.state s.raw).state, (c.run s.state s.raw).rest, rest⟩)) ∨
    ((c.run s.state s.raw).fault = none ∧ (c.run s.state s.raw).out = [] ∧
      s.serve p room =
        (none, ⟨s.source, (c.run s.state s.raw).state, (c.run s.state s.raw).rest, []⟩)) := by
  have hmoves := h.moves s.state s.raw s.buffer
  have hflag := h.flag s.state s.raw s.buffer
  have hfails := h.fails s.state s.raw s.buffer
  rw [serve]
  rw [hempty] at hmoves hflag hfails ⊢
  generalize p.drain s.state s.raw [] = answer at hmoves hflag hfails
  obtain ⟨result,moved⟩ := answer
  dsimp only at hmoves hflag hfails
  subst hmoves
  cases hfault : (c.run s.state s.raw).fault with
  | some err =>
    rw [hfails err hfault]
    exact .inl ⟨err, _, rfl, rfl⟩
  | none =>
    obtain ⟨drained,rfl,hdrained⟩ := hflag hfault
    dsimp only
    rw [List.nil_append]
    split
    case h_1 out rest hout =>
      have hhand : handOut (c.run s.state s.raw).out room = some (out, rest) := by
        cases drained with
        | true => exact hout
        | false => cases hout
      obtain ⟨hsplit,hne⟩ := handOut_some hhand
      exact .inr (.inl ⟨out, rest, rfl, hsplit.symm, hne, rfl⟩)
    case h_2 hout =>
      have hnil : (c.run s.state s.raw).out = [] := by
        cases drained with
        | true => exact handOut_none hout hroom
        | false => exact hdrained rfl
      rw [hnil]
      exact .inr (.inr ⟨rfl, rfl, rfl⟩)

/-! ## Reading to the end -/

/-- `d` is what the decoder makes of the stream, `delivered` what the caller has of it. -/
structure Reading (c : FrameDecoder σ α α IoError) (d : Decoded σ α α IoError) (delivered : List α)
    (s : FramedReader σ α) : Prop where
  flawless : Flawless s.source
  rest : (c.run s.state (s.raw ++ sourceBytes s.source)).after (delivered ++ s.buffer) = d

/-- The stream is whole frames, and the caller has what they carry. -/
def Finished (d : Decoded σ α α IoError) (delivered : List α) : Prop :=
  d.fault = none ∧ d.rest = [] ∧ d.out = delivered

/-- What one poll answers; less is left in the source than `n` if there was a wait. -/
def Answers (c : FrameDecoder σ α α IoError) (d : Decoded σ α α IoError) (delivered : List α) (n : Nat)
    (r : Poll (IoResult (List α)) × FramedReader σ α) : Prop :=
  match r.1 with
  | .pending => Reading c d delivered r.2 ∧ sourceSize r.2.source < n
  | .ready (.ok out) => Reading c d (delivered ++ out) r.2 ∧ sourceSize r.2.source ≤ n ∧
      (out = [] → Finished d delivered)
  | .ready (.error _) => ¬ (d.fault = none ∧ d.rest = [])

theorem Reading.serve (h : p.Follows c) {d : Decoded σ α α IoError}
    (hs : Reading c d delivered s) (hempty : s.buffer = []) {room : Nat} (hroom : 0 < room) :
    (∃ err s', s.serve p room = (some (.ready (.error err)), s') ∧ ¬ (d.fault = none ∧ d.rest = [])) ∨
    (∃ out s', s.serve p room = (some (.ready (.ok out)), s') ∧ out ≠ [] ∧
      s'.source = s.source ∧ Reading c d (delivered ++ out) s') ∨
    (∃ s', s.serve p room = (none, s') ∧ s'.source = s.source ∧ s'.buffer = [] ∧
      Reading c d delivered s' ∧ c.run s'.state s'.raw = ⟨s'.state, s'.raw, [], none⟩) := by
  have hrest := hs.rest
  rw [hempty, List.append_nil] at hrest
  obtain ⟨err,s',hfault,hserve⟩ | ⟨out,rest,hfault,hout,hne,hserve⟩ | ⟨hfault,hout,hserve⟩ :=
    serve_cases h hempty hroom
  · refine .inl ⟨err, s', hserve, fun hgood => ?_⟩
    have happ := c.run_fault_append s.state s.raw (sourceBytes s.source) hfault
    have hbad := happ.1
    rw [← hrest] at hgood
    cases hbad.symm.trans hgood.1
  · have happ := c.run_append s.state s.raw (sourceBytes s.source) hfault
    refine .inr (.inl ⟨out, _, hserve, hne, rfl, hs.flawless, ?_⟩)
    rw [happ, Decoded.after_after, hout] at hrest
    rw [List.append_assoc]
    exact hrest
  · have happ := c.run_append s.state s.raw (sourceBytes s.source) hfault
    have hsettled := c.run_settled s.state s.raw hfault
    rw [happ, Decoded.after_after, hout, List.append_nil] at hrest
    refine .inr (.inr ⟨_, hserve, rfl, rfl, ⟨hs.flawless, ?_⟩, run_wait hsettled⟩)
    rw [List.append_nil]
    exact hrest

theorem Reading.serve_none (h : p.Follows c) {d : Decoded σ α α IoError}
    (hs : Reading c d delivered s) (hempty : s.buffer = []) {room : Nat} (hroom : 0 < room)
    {s' : FramedReader σ α} (hserve : s.serve p room = (none, s')) :
    s'.source = s.source ∧ s'.buffer = [] ∧ Reading c d delivered s' ∧
      c.run s'.state s'.raw = ⟨s'.state, s'.raw, [], none⟩ := by
  obtain ⟨err,s₁,herr,_⟩ | ⟨out,s₁,hout,_⟩ | ⟨s₁,hnone,hrest⟩ := hs.serve h hempty hroom
  · cases hserve.symm.trans herr
  · cases hserve.symm.trans hout
  · cases hserve.symm.trans hnone
    exact hrest

/-- At the end of the source there is nothing but what is in the raw buffer. -/
theorem Reading.at_end {d : Decoded σ α α IoError} (hs : Reading c d delivered s)
    (hempty : s.buffer = []) (hsettled : c.run s.state s.raw = ⟨s.state, s.raw, [], none⟩)
    (hsource : s.source = []) : d.fault = none ∧ d.rest = s.raw ∧ d.out = delivered := by
  have hrest := hs.rest
  rw [hsource, sourceBytes_nil, hempty, List.append_nil, List.append_nil, hsettled] at hrest
  rw [← hrest]
  exact ⟨rfl, rfl, List.append_nil _⟩

theorem receiveLoop_answers (h : p.Follows c) {d : Decoded σ α α IoError}
    (hs : Reading c d delivered s) (hempty : s.buffer = []) {room : Nat} (hroom : 0 < room) :
    Answers c d delivered (sourceSize s.source) (s.receiveLoop p room) := by
  fun_induction receiveLoop p s room with
  | case1 s r s' hserve =>
    obtain ⟨err,s₁,herr,hbad⟩ | ⟨out,s₁,hout,hne,hsame,hreading⟩ | ⟨s₁,hnone,_⟩ :=
      hs.serve h hempty hroom
    · cases hserve.symm.trans herr
      exact hbad
    · cases hserve.symm.trans hout
      exact ⟨hreading, Nat.le_of_eq (congrArg sourceSize hsame), fun hnil => absurd hnil hne⟩
    · cases hserve.symm.trans hnone
  | case2 s s' hserve source hr =>
    obtain ⟨hsame,_,hreading,_⟩ := hs.serve_none h hempty hroom hserve
    refine ⟨⟨(hreading.flawless.read hr).1, ?_⟩, ?_⟩
    · have hrest := hreading.rest
      rw [pollRead_pending hr] at hrest
      exact hrest
    · rw [← hsame, pollRead_pending hr]
      exact sourceSize_pending
  | case3 s s' hserve err source hr =>
    obtain ⟨_,_,hreading,_⟩ := hs.serve_none h hempty hroom hserve
    exact absurd rfl ((hreading.flawless.read hr).2 err)
  | case4 s s' hserve source hraw hr =>
    obtain ⟨hsame,hempty',hreading,hsettled⟩ := hs.serve_none h hempty hroom hserve
    obtain ⟨rfl,hend⟩ := (pollRead_ok hr).2.2.2 rfl
    have hsource : s'.source = [] := hend.resolve_right (Nat.ne_of_gt h.chunk_pos)
    obtain ⟨hfault,hrest,hout⟩ := hreading.at_end hempty' hsettled hsource
    refine ⟨?_, Nat.le_of_eq (congrArg sourceSize hsame), fun _ => ⟨hfault, hrest.trans hraw, hout⟩⟩
    rw [List.append_nil]
    exact hreading
  | case5 s s' hserve source hraw hr =>
    obtain ⟨_,hempty',hreading,hsettled⟩ := hs.serve_none h hempty hroom hserve
    have hend := ((pollRead_ok hr).2.2.2 rfl).2
    have hsource : s'.source = [] := hend.resolve_right (Nat.ne_of_gt h.chunk_pos)
    obtain ⟨_,hrest,_⟩ := hreading.at_end hempty' hsettled hsource
    exact fun hgood => hraw (hrest.symm.trans hgood.2)
  | case6 s s' hserve filled source hr hp ih =>
    obtain ⟨hsame,hempty',hreading,_⟩ := hs.serve_none h hempty hroom hserve
    have hnext : Reading c d delivered { s' with source := source, raw := s'.raw ++ filled } := by
      refine ⟨(hreading.flawless.read hr).1, ?_⟩
      have hrest := hreading.rest
      rw [(pollRead_ok hr).1, ← List.append_assoc] at hrest
      exact hrest
    have hlt := sourceSize_pollRead hr hp
    rw [hsame] at hlt
    have hanswers := ih hnext hempty'
    generalize receiveLoop p { s' with source := source, raw := s'.raw ++ filled } room = answer at hanswers ⊢
    obtain ⟨r,s₁⟩ := answer
    cases r with
    | pending => exact ⟨hanswers.1, hanswers.2.trans hlt⟩
    | ready r =>
      cases r with
      | error err => exact hanswers
      | ok out => exact ⟨hanswers.1, hanswers.2.1.trans (Nat.le_of_lt hlt), hanswers.2.2⟩

theorem pollRead_answers (h : p.Follows c) {d : Decoded σ α α IoError}
    (hs : Reading c d delivered s) {room : Nat} (hroom : 0 < room) :
    Answers c d delivered (sourceSize s.source) (s.pollRead p room) := by
  rw [pollRead]
  split
  case h_1 out rest hhand =>
    obtain ⟨hsplit,hne⟩ := handOut_some hhand
    refine ⟨⟨hs.flawless, ?_⟩, Nat.le_refl _, fun hnil => absurd hnil hne⟩
    rw [List.append_assoc, hsplit]
    exact hs.rest
  case h_2 hhand => exact receiveLoop_answers h hs (handOut_none hhand hroom) hroom

/-! ## Sessions -/

/-- No reader gets an error or anything but `payload`, a reader at the end of the stream
has it all, and one gets there. -/
def Delivers (p : FrameParser σ α) (s : FramedReader σ α) (payload : List α) : Prop :=
  (∀ r, Reads (pollRead p) s r → r.failed = false ∧ r.delivered <+: payload ∧
    (r.last = some (.ready (.ok [])) → r.delivered = payload)) ∧
  ∃ r, Reads (pollRead p) s r ∧ r.last = some (.ready (.ok []))

/-- What holds in every session. -/
def Session (c : FrameDecoder σ α α IoError) (d : Decoded σ α α IoError)
    (r : ReadSession (FramedReader σ α) α) : Prop :=
  if r.failed then ¬ (d.fault = none ∧ d.rest = [])
  else Reading c d r.delivered r.stream ∧
    (r.last = some (.ready (.ok [])) → Finished d r.delivered)

theorem session_read (h : p.Follows c) {d : Decoded σ α α IoError}
    {r : ReadSession (FramedReader σ α) α} (hs : Reading c d r.delivered r.stream) {room : Nat}
    (hroom : 0 < room) : Session c d (r.read (pollRead p) room) := by
  have hanswers := pollRead_answers h hs hroom
  rw [ReadSession.read]
  generalize pollRead p r.stream room = answer at hanswers ⊢
  obtain ⟨result,st⟩ := answer
  cases result with
  | pending => exact ⟨hanswers.1, fun hlast => by cases hlast⟩
  | ready result =>
    cases result with
    | error err => exact hanswers
    | ok out =>
      refine ⟨hanswers.1, fun hlast => ?_⟩
      cases hlast
      change Finished d (r.delivered ++ [])
      rw [List.append_nil]
      exact hanswers.2.2 rfl

theorem reads_session (h : p.Follows c) (hf : Flawless s.source) (hempty : s.buffer = [])
    {r : ReadSession (FramedReader σ α) α} (hr : Reads (pollRead p) s r) :
    Session c (c.run s.state (s.raw ++ sourceBytes s.source)) r := by
  refine hr.invariant (Session c (c.run s.state (s.raw ++ sourceBytes s.source))) ?_ ?_
  · refine ⟨⟨hf, ?_⟩, fun hlast => by cases hlast⟩
    change (c.run s.state (s.raw ++ sourceBytes s.source)).after ([] ++ s.buffer) = _
    rw [hempty]
    rfl
  · intro r room hsession ho hroom
    rw [Session, if_neg (by rw [ho]; decide)] at hsession
    exact session_read h hsession.1 hroom

/-- What is left for the caller, and the reads it may come in. -/
def size (c : FrameDecoder σ α α IoError) (s : FramedReader σ α) : Nat :=
  sourceSize s.source + (s.buffer.length + (c.run s.state (s.raw ++ sourceBytes s.source)).out.length)

theorem Reading.size {d : Decoded σ α α IoError} (hs : Reading c d delivered s) :
    s.size c + delivered.length = sourceSize s.source + d.out.length := by
  rw [FramedReader.size, ← hs.rest, Decoded.after_out, List.length_append, List.length_append]
  omega

/-- Every answer but the last leaves less. -/
theorem pollRead_size (h : p.Follows c) {d : Decoded σ α α IoError} (hs : Reading c d delivered s)
    {room : Nat} (hroom : 0 < room) :
    (∃ err, (s.pollRead p room).1 = .ready (.error err)) ∨ (s.pollRead p room).1 = .ready (.ok []) ∨
    (∃ delivered', Reading c d delivered' (s.pollRead p room).2) ∧
      (s.pollRead p room).2.size c < s.size c := by
  have hanswers := pollRead_answers h hs hroom
  have hsize := hs.size
  generalize pollRead p s room = answer at hanswers ⊢
  obtain ⟨result,st⟩ := answer
  cases result with
  | pending =>
    obtain ⟨hnext,hlt⟩ := hanswers
    have hsize' := hnext.size
    refine .inr (.inr ⟨⟨delivered, hnext⟩, ?_⟩)
    dsimp only at hsize' hlt ⊢
    omega
  | ready result =>
    cases result with
    | error err => exact .inl ⟨err, rfl⟩
    | ok out =>
      cases out with
      | nil => exact .inr (.inl rfl)
      | cons b bs =>
        obtain ⟨hnext,hle,_⟩ := hanswers
        have hsize' := hnext.size
        rw [List.length_append, List.length_cons] at hsize'
        refine .inr (.inr ⟨⟨_, hnext⟩, ?_⟩)
        dsimp only at hsize' hle ⊢
        omega

/-- A reader with room for one gets to the end of the stream or to an error. -/
theorem reads_end (h : p.Follows c) {d : Decoded σ α α IoError} (hs : Reading c d [] s) :
    ∃ r, Reads (pollRead p) s r ∧ (r.last = some (.ready (.ok [])) ∨ r.failed = true) := by
  refine Reads.ends (fun s => ∃ delivered, Reading c d delivered s) (FramedReader.size c) Nat.one_pos ?_
    ⟨[], hs⟩
  rintro s ⟨delivered,hreading⟩
  exact pollRead_size h hreading Nat.one_pos

/-- The caller gets what the decoder makes of the whole stream, however it is cut. -/
theorem delivers_iff (h : p.Follows c) (hf : Flawless s.source) (hempty : s.buffer = [])
    (payload : List α) :
    Delivers p s payload ↔ Finished (c.run s.state (s.raw ++ sourceBytes s.source)) payload := by
  constructor
  · rintro ⟨hsafe,r,hr,hlast⟩
    obtain ⟨hfailed,_,hall⟩ := hsafe r hr
    have hsession := reads_session h hf hempty hr
    rw [Session, if_neg (by rw [hfailed]; decide)] at hsession
    rw [← hall hlast]
    exact hsession.2 hlast
  · intro hfinished
    have hsafe : ∀ r, Reads (pollRead p) s r → r.failed = false ∧ r.delivered <+: payload ∧
        (r.last = some (.ready (.ok [])) → r.delivered = payload) := by
      intro r hr
      have hsession := reads_session h hf hempty hr
      rw [Session] at hsession
      split at hsession
      case isTrue => exact absurd ⟨hfinished.1, hfinished.2.1⟩ hsession
      case isFalse hfailed =>
        refine ⟨eq_false_of_ne_true hfailed, ?_, fun hlast => ?_⟩
        · rw [← hfinished.2.2, ← hsession.1.rest, Decoded.after_out, List.append_assoc]
          exact List.prefix_append ..
        · rw [← hfinished.2.2, (hsession.2 hlast).2.2]
    have hstart : Reading c (c.run s.state (s.raw ++ sourceBytes s.source)) [] s := by
      refine ⟨hf, ?_⟩
      rw [hempty]
      rfl
    obtain ⟨r,hr,hlast | hfailed⟩ := reads_end h hstart
    · exact ⟨hsafe, r, hr, hlast⟩
    · cases (hsafe r hr).1.symm.trans hfailed

/-! ## Reading until there is enough -/

/-- `enough` comes out of the first `n` of the stream, and not out of less. -/
structure Enough (c : FrameDecoder σ α α IoError) (state : σ) (wire : List α) (n : Nat)
    (enough : List α) : Prop where
  le : n ≤ wire.length
  faultless : (c.run state wire).fault = none
  out : (c.run state (wire.take n)).out = enough
  least : ∀ k < n, ¬ enough <+: (c.run state (wire.take k)).out

/-- The first `k` of the stream have been read, and the parser has seen them all. -/
structure Cutting (c : FrameDecoder σ α α IoError) (state : σ) (wire : List α) (chunk n : Nat)
    (cut : Option Nat) (delivered : List α) (k : Nat) (s : FramedReader σ α) : Prop where
  flawless : Flawless s.source
  bytes : sourceBytes s.source = wire.drop k
  le : k ≤ wire.length
  run : c.run state (wire.take k) = ⟨s.state, s.raw, delivered ++ s.buffer, none⟩
  cut_eq : cut = if k < n then firstCut chunk n k s.source else some k

variable {state : σ} {wire enough : List α} {n k : Nat} {cut : Option Nat}

theorem Enough.take_faultless (h : Enough c state wire n enough) (k : Nat) :
    (c.run state (wire.take k)).fault = none := by
  cases hfault : (c.run state (wire.take k)).fault with
  | none => rfl
  | some err =>
    have happ := (c.run_fault_append state (wire.take k) (wire.drop k) hfault).1
    rw [List.take_append_drop, h.faultless] at happ
    cases happ

theorem Enough.reached (h : Enough c state wire n enough) (hk : n ≤ k) :
    enough <+: (c.run state (wire.take k)).out := by
  have hsplit : wire.take k = wire.take n ++ (wire.take k).drop n := by
    conv_lhs => rw [← List.take_append_drop n (wire.take k), List.take_take, Nat.min_eq_left hk]
  rw [hsplit, c.run_append _ _ _ (h.take_faultless n), h.out]
  exact List.prefix_append ..

/-- Before the parser has seen what has been read last. -/
structure Heading (c : FrameDecoder σ α α IoError) (state : σ) (wire : List α) (chunk n : Nat)
    (cut : Option Nat) (delivered : List α) (k : Nat) (s : FramedReader σ α) : Prop where
  flawless : Flawless s.source
  bytes : sourceBytes s.source = wire.drop k
  le : k ≤ wire.length
  empty : s.buffer = []
  run : c.run state (wire.take k) = (c.run s.state s.raw).after delivered
  cut_eq : cut = if k < n then firstCut chunk n k s.source else some k

theorem Cutting.heading {chunk : Nat} (h : Cutting c state wire chunk n cut delivered k s)
    (hempty : s.buffer = []) : Heading c state wire chunk n cut delivered k s := by
  refine ⟨h.flawless, h.bytes, h.le, hempty, ?_, h.cut_eq⟩
  have hrun := h.run
  rw [hempty, List.append_nil] at hrun
  have hsettled := c.run_settled state (wire.take k) (by rw [hrun])
  rw [hrun] at hsettled
  rw [hrun, run_wait hsettled]
  exact congrArg (Decoded.mk s.state s.raw · none) (List.append_nil _).symm

/-- What comes of a poll while there is not enough. -/
def Pumped (c : FrameDecoder σ α α IoError) (state : σ) (wire : List α) (chunk n : Nat)
    (cut : Option Nat) (delivered : List α) (r : Poll (IoResult (List α)) × FramedReader σ α) : Prop :=
  match r.1 with
  | .pending => ∃ k, Cutting c state wire chunk n cut delivered k r.2
  | .ready (.ok out) => out ≠ [] ∧ ∃ k, Cutting c state wire chunk n cut (delivered ++ out) k r.2
  | .ready (.error _) => False

/-- With nothing served, what has been read is not enough. -/
theorem Heading.unserved (hp : p.Follows c) (he : Enough c state wire n enough) {chunk : Nat}
    (h : Heading c state wire chunk n cut delivered k s) (hnot : ¬ enough <+: delivered)
    {room : Nat} (hroom : 0 < room) {s' : FramedReader σ α} (hnone : s.serve p room = (none, s')) :
    k < n ∧ s'.buffer = [] ∧ Cutting c state wire chunk n cut delivered k s' := by
  obtain ⟨err,s₁,_,herr⟩ | ⟨out,rest,_,_,_,hout⟩ | ⟨hfault,hnil,hnone'⟩ := serve_cases hp h.empty hroom
  · cases hnone.symm.trans herr
  · cases hnone.symm.trans hout
  · cases hnone.symm.trans hnone'
    have hrun := h.run
    rw [Decoded.after, hfault, hnil] at hrun
    refine ⟨Nat.lt_of_not_le fun hle => hnot ?_, rfl, h.flawless, h.bytes, h.le, hrun, h.cut_eq⟩
    have hreached := he.reached hle
    rw [hrun] at hreached
    simpa only [List.append_nil] using hreached

/-- What is read next goes to the parser. -/
theorem Cutting.filled (he : Enough c state wire n enough) {chunk : Nat} {s' : FramedReader σ α}
    (h : Cutting c state wire chunk n cut delivered k s') (hempty : s'.buffer = []) (hlt : k < n)
    {filled : List α} {source : Source α}
    (hr : Lib.pollRead chunk s'.source = (.ready (.ok filled), source)) (hne : filled ≠ []) :
    Heading c state wire chunk n cut delivered (k + filled.length)
      { s' with source := source, raw := s'.raw ++ filled } := by
  have hbytes := h.bytes
  rw [(pollRead_ok hr).1] at hbytes
  have htake : wire.take (k + filled.length) = wire.take k ++ filled := by
    rw [List.take_add, ← hbytes, List.take_left]
  have hlen := congrArg List.length hbytes
  rw [List.length_append, List.length_drop] at hlen
  constructor
  case flawless => exact (h.flawless.read hr).1
  case bytes => rw [← List.drop_drop, ← hbytes, List.drop_left]
  case le =>
    have hle := h.le
    omega
  case empty => exact hempty
  case run => rw [htake, c.run_append _ _ _ (he.take_faultless k), h.run, hempty, List.append_nil]
  case cut_eq =>
    rw [h.cut_eq, if_pos hlt, firstCut_read hr hne]
    split
    case isTrue hle => rw [if_neg (Nat.not_lt.mpr hle)]
    case isFalse hgt => rw [if_pos (Nat.not_le.mp hgt)]

theorem Heading.receiveLoop (hp : p.Follows c) (he : Enough c state wire n enough)
    (h : Heading c state wire p.chunk n cut delivered k s) (hnot : ¬ enough <+: delivered)
    {room : Nat} (hroom : 0 < room) :
    Pumped c state wire p.chunk n cut delivered (s.receiveLoop p room) := by
  fun_induction FramedReader.receiveLoop p s room generalizing k with
  | case1 s r s' hs =>
    obtain ⟨err,s₁,hfault,_⟩ | ⟨out,rest,hfault,hout,hne,hserved⟩ | ⟨_,_,hnone⟩ :=
      serve_cases hp h.empty hroom
    · have hfaultless := he.take_faultless k
      rw [h.run, Decoded.after_fault, hfault] at hfaultless
      cases hfaultless
    · cases hs.symm.trans hserved
      refine ⟨hne, k, h.flawless, h.bytes, h.le, ?_, h.cut_eq⟩
      have hrun := h.run
      rw [Decoded.after, hfault, hout, ← List.append_assoc] at hrun
      exact hrun
    · cases hs.symm.trans hnone
  | case2 s s' hs source hr =>
    obtain ⟨hlt,_,hcutting⟩ := h.unserved hp he hnot hroom hs
    have hbytes := hcutting.bytes
    have hcut := hcutting.cut_eq
    rw [pollRead_pending hr] at hbytes
    rw [if_pos hlt, firstCut_pending hr] at hcut
    exact ⟨k, (hcutting.flawless.read hr).1, hbytes, hcutting.le, hcutting.run, by rw [if_pos hlt, hcut]⟩
  | case3 s s' hs err source hr =>
    obtain ⟨_,_,hcutting⟩ := h.unserved hp he hnot hroom hs
    exact absurd rfl ((hcutting.flawless.read hr).2 err)
  | case4 s s' hs source hraw hr | case5 s s' hs source hraw hr =>
    obtain ⟨hlt,_,hcutting⟩ := h.unserved hp he hnot hroom hs
    have hend := ((pollRead_ok hr).2.2.2 rfl).2
    have hsource : s'.source = [] := hend.resolve_right (Nat.ne_of_gt hp.chunk_pos)
    have hbytes := hcutting.bytes
    rw [hsource, sourceBytes_nil] at hbytes
    have hlong := List.drop_eq_nil_iff.mp hbytes.symm
    have hle := he.le
    omega
  | case6 s s' hs filled source hr hpos ih =>
    obtain ⟨hlt,hempty,hcutting⟩ := h.unserved hp he hnot hroom hs
    exact ih (hcutting.filled he hempty hlt hr hpos)

theorem Cutting.pollRead (hp : p.Follows c) (he : Enough c state wire n enough)
    (h : Cutting c state wire p.chunk n cut delivered k s) (hnot : ¬ enough <+: delivered)
    {room : Nat} (hroom : 0 < room) :
    Pumped c state wire p.chunk n cut delivered (s.pollRead p room) := by
  rw [FramedReader.pollRead]
  split
  case h_1 out rest hhand =>
    obtain ⟨hsplit,hne⟩ := handOut_some hhand
    refine ⟨hne, k, h.flawless, h.bytes, h.le, ?_, h.cut_eq⟩
    rw [h.run, ← hsplit, List.append_assoc]
  case h_2 hhand => exact (h.heading (handOut_none hhand hroom)).receiveLoop hp he hnot hroom

/-- What holds while a reader reads until it has enough. -/
def Pumping (c : FrameDecoder σ α α IoError) (state : σ) (wire : List α) (chunk n : Nat)
    (cut : Option Nat) (r : ReadSession (FramedReader σ α) α) : Prop :=
  r.failed = false ∧ r.last ≠ some (.ready (.ok [])) ∧
    ∃ k, Cutting c state wire chunk n cut r.delivered k r.stream

theorem Pumping.read (hp : p.Follows c) (he : Enough c state wire n enough)
    {r : ReadSession (FramedReader σ α) α} (h : Pumping c state wire p.chunk n cut r)
    (hnot : ¬ enough <+: r.delivered) {room : Nat} (hroom : 0 < room) :
    Pumping c state wire p.chunk n cut (r.read (FramedReader.pollRead p) room) := by
  obtain ⟨_,_,k,hcutting⟩ := h
  have hpumped := hcutting.pollRead hp he hnot hroom
  rw [ReadSession.read]
  generalize FramedReader.pollRead p r.stream room = answer at hpumped ⊢
  obtain ⟨result,st⟩ := answer
  cases result with
  | pending => exact ⟨rfl, fun hlast => (by cases hlast), hpumped⟩
  | ready result =>
    cases result with
    | error err => exact hpumped.elim
    | ok out =>
      refine ⟨rfl, fun hlast => ?_, hpumped.2⟩
      cases hlast
      exact hpumped.1 rfl

/-- Nothing has been read or parsed yet. -/
structure Fresh (c : FrameDecoder σ α α IoError) (s : FramedReader σ α) : Prop where
  flawless : Flawless s.source
  raw : s.raw = []
  buffer : s.buffer = []
  waits : c.inspect s.state [] = .wait s.state

theorem Fresh.pumping (h : Fresh c s) (chunk n : Nat) :
    Pumping c s.state (sourceBytes s.source) chunk n
      (if 0 < n then firstCut chunk n 0 s.source else some 0) (.start s) := by
  refine ⟨rfl, fun hlast => (by cases hlast), 0, h.flawless, rfl, Nat.zero_le _, ?_, rfl⟩
  rw [List.take_zero, run_wait h.waits]
  change _ = Decoded.mk s.state s.raw ([] ++ s.buffer) none
  rw [h.raw, h.buffer]
  rfl

/-- A reader that has just got enough has read to the first cut at which it is there. -/
theorem readsUntil_pumping (hp : p.Follows c) (h : Fresh c s)
    (he : Enough c s.state (sourceBytes s.source) n enough) {r : ReadSession (FramedReader σ α) α}
    (hr : ReadsUntil (enough <+: ·) (FramedReader.pollRead p) s r) :
    Pumping c s.state (sourceBytes s.source) p.chunk n
      (if 0 < n then firstCut p.chunk n 0 s.source else some 0) r := by
  induction hr with
  | start => exact h.pumping p.chunk n
  | read room _ hnot _ hroom ih => exact ih.read hp he hnot hroom

theorem Pumping.done {r : ReadSession (FramedReader σ α) α}
    (h : Pumping c state wire p.chunk n cut r) (he : Enough c state wire n enough)
    (henough : enough <+: r.delivered) :
    ∃ k, cut = some k ∧ sourceBytes r.stream.source = wire.drop k ∧ Flawless r.stream.source ∧
      c.run state (wire.take k) = ⟨r.stream.state, r.stream.raw, r.delivered ++ r.stream.buffer, none⟩ := by
  obtain ⟨_,_,k,hcutting⟩ := h
  have hk : ¬ k < n := by
    intro hlt
    refine he.least k hlt ?_
    rw [hcutting.run]
    exact henough.trans (List.prefix_append ..)
  have hcut := hcutting.cut_eq
  rw [if_neg hk] at hcut
  exact ⟨k, hcut, hcutting.bytes, hcutting.flawless, hcutting.run⟩

/-- A reader with room for one gets enough. -/
theorem readsUntil_enough (hp : p.Follows c) (h : Fresh c s)
    (he : Enough c s.state (sourceBytes s.source) n enough) :
    ∃ r, ReadsUntil (enough <+: ·) (FramedReader.pollRead p) s r ∧ enough <+: r.delivered := by
  let d := c.run s.state (s.raw ++ sourceBytes s.source)
  let cut := if 0 < n then firstCut p.chunk n 0 s.source else some 0
  have hends : ∃ r, ReadsUntil (enough <+: ·) (FramedReader.pollRead p) s r ∧
      (enough <+: r.delivered ∨ r.last = some (.ready (.ok [])) ∨ r.failed = true) := by
    refine ReadsUntil.ends (fun r => Reading c d r.delivered r.stream ∧
      Pumping c s.state (sourceBytes s.source) p.chunk n cut r) (FramedReader.size c) Nat.one_pos ?_ .start
      rfl ⟨⟨h.flawless, ?_⟩, h.pumping p.chunk n⟩
    · rintro r ⟨hreading,hpumping⟩ hnot
      have hnext := hpumping.read hp he hnot Nat.one_pos
      have hsession := session_read hp hreading Nat.one_pos
      rw [Session, if_neg (by rw [hnext.1]; decide)] at hsession
      obtain herr | hend | ⟨_,hlt⟩ := pollRead_size hp hreading Nat.one_pos
      · exact .inl herr
      · exact .inr (.inl hend)
      · exact .inr (.inr ⟨⟨hsession.1, hnext⟩, hlt⟩)
    · change d.after ([] ++ s.buffer) = d
      rw [h.buffer]
      rfl
  obtain ⟨r,hr,henough | hend | hfailed⟩ := hends
  · exact ⟨r, hr, henough⟩
  · exact absurd hend (readsUntil_pumping hp h he hr).2.1
  · cases (readsUntil_pumping hp h he hr).1.symm.trans hfailed

/-! ## A decoder without faults -/

/-- Of the stream, `consumed` has been read, and the caller and the reader have what the decoder
makes of it; whatever becomes of the source. -/
structure Consuming (c : FrameDecoder σ α α IoError) (state : σ) (wire delivered : List α)
    (consumed : List α) (s : FramedReader σ α) : Prop where
  source : consumed ++ sourceBytes s.source = wire
  run : (c.run s.state s.raw).after (delivered ++ s.buffer) = c.run state consumed

/-- What an answer hands to the caller. -/
def handed : Poll (IoResult (List α)) → List α
  | .ready (.ok out) => out
  | _ => []

variable {state : σ} {wire consumed : List α}

theorem serve_faultless (h : p.Follows c) (hfaultless : ∀ state raw, (c.run state raw).fault = none)
    (room : Nat) :
    (∃ out rest, out ++ rest = s.buffer ++ (c.run s.state s.raw).out ∧ s.serve p room =
      (some (.ready (.ok out)), ⟨s.source, (c.run s.state s.raw).state, (c.run s.state s.raw).rest, rest⟩)) ∨
    s.serve p room = (none, ⟨s.source, (c.run s.state s.raw).state, (c.run s.state s.raw).rest,
      s.buffer ++ (c.run s.state s.raw).out⟩) := by
  obtain ⟨drained,hok,_⟩ := h.flag s.state s.raw s.buffer (hfaultless _ _)
  have hdrain : p.drain s.state s.raw s.buffer = (.ok drained, (c.run s.state s.raw).rest,
      s.buffer ++ (c.run s.state s.raw).out, (c.run s.state s.raw).state) :=
    Prod.ext hok (h.moves s.state s.raw s.buffer)
  rw [serve, hdrain]
  dsimp only
  split
  case h_1 out rest hhand =>
    have hhand' : handOut (s.buffer ++ (c.run s.state s.raw).out) room = some (out, rest) := by
      cases drained with
      | true => exact hhand
      | false => cases hhand
    exact .inl ⟨out,rest,(handOut_some hhand').1,rfl⟩
  case h_2 => exact .inr rfl

/-- The frames that are there are decoded, and some of it is handed out. -/
theorem Consuming.served (hfaultless : ∀ state raw, (c.run state raw).fault = none)
    (hs : Consuming c state wire delivered consumed s) {out rest : List α}
    (hout : out ++ rest = s.buffer ++ (c.run s.state s.raw).out) :
    Consuming c state wire (delivered ++ out) consumed
      ⟨s.source, (c.run s.state s.raw).state, (c.run s.state s.raw).rest, rest⟩ := by
  refine ⟨hs.source,?_⟩
  have hsettled := run_wait (c.run_settled s.state s.raw (hfaultless _ _))
  have hnone := hfaultless s.state s.raw
  rw [← hs.run, hsettled, Decoded.after_mk, List.append_nil, List.append_assoc, hout, ← List.append_assoc]
  simp only [Decoded.after, hnone]

/-- A piece of the source goes behind the raw bytes. -/
theorem Consuming.filled (hfaultless : ∀ state raw, (c.run state raw).fault = none)
    (hs : Consuming c state wire delivered consumed s) {filled : List α} {source : Source α}
    (hbytes : sourceBytes s.source = filled ++ sourceBytes source) :
    Consuming c state wire delivered (consumed ++ filled)
      { s with source := source, raw := s.raw ++ filled } := by
  refine ⟨?_,?_⟩
  · rw [List.append_assoc, ← hbytes]
    exact hs.source
  · have hrun := hs.run
    rw [c.run_append state consumed filled (hfaultless _ _), ← hrun,
      c.run_append s.state s.raw filled (hfaultless _ _), Decoded.after_after, Decoded.after_state,
      Decoded.after_rest, Decoded.after_out]

/-- The source has moved on, and no byte has come of it. -/
theorem Consuming.moved (hs : Consuming c state wire delivered consumed s) {source : Source α}
    (hbytes : sourceBytes s.source = sourceBytes source) :
    Consuming c state wire delivered consumed { s with source := source } :=
  ⟨hbytes ▸ hs.source, hs.run⟩

theorem Consuming.serve_none (h : p.Follows c)
    (hfaultless : ∀ state raw, (c.run state raw).fault = none) {room : Nat}
    (hs : Consuming c state wire delivered consumed s) {s' : FramedReader σ α}
    (hserve : s.serve p room = (none, s')) : Consuming c state wire delivered consumed s' := by
  obtain ⟨out,rest,_,hsome⟩ | hnone := serve_faultless (s := s) h hfaultless room
  · cases hserve.symm.trans hsome
  · cases hserve.symm.trans hnone
    have hserved := hs.served hfaultless (List.nil_append (s.buffer ++ (c.run s.state s.raw).out))
    rw [List.append_nil] at hserved
    exact hserved

theorem Consuming.receiveLoop (h : p.Follows c)
    (hfaultless : ∀ state raw, (c.run state raw).fault = none) {room : Nat}
    (hs : Consuming c state wire delivered consumed s) :
    ∃ consumed', Consuming c state wire (delivered ++ handed (s.receiveLoop p room).1) consumed'
      (s.receiveLoop p room).2 := by
  fun_induction FramedReader.receiveLoop p s room generalizing consumed with
  | case1 s r s' hserve =>
    obtain ⟨out,rest,hout,hsome⟩ | hnone := serve_faultless (s := s) h hfaultless room
    · cases hserve.symm.trans hsome
      exact ⟨consumed,hs.served hfaultless hout⟩
    · cases hserve.symm.trans hnone
  | case2 s s' hserve source hr =>
    have hbytes : sourceBytes s'.source = sourceBytes source := by rw [pollRead_pending hr]; rfl
    simpa [handed] using ⟨consumed,(hs.serve_none h hfaultless hserve).moved hbytes⟩
  | case3 s s' hserve err source hr =>
    have hbytes : sourceBytes s'.source = sourceBytes source := by rw [pollRead_error hr]; rfl
    simpa [handed] using ⟨consumed,(hs.serve_none h hfaultless hserve).moved hbytes⟩
  | case4 s s' hserve source hraw hr =>
    simpa [handed] using ⟨consumed,(hs.serve_none h hfaultless hserve).moved (pollRead_ok hr).1⟩
  | case5 s s' hserve source hraw hr =>
    simpa [handed] using ⟨consumed,(hs.serve_none h hfaultless hserve).moved (pollRead_ok hr).1⟩
  | case6 s s' hserve filled source hr hp ih =>
    exact ih ((hs.serve_none h hfaultless hserve).filled hfaultless (pollRead_ok hr).1)

theorem Consuming.pollRead (h : p.Follows c)
    (hfaultless : ∀ state raw, (c.run state raw).fault = none) (room : Nat)
    (hs : Consuming c state wire delivered consumed s) :
    ∃ consumed', Consuming c state wire (delivered ++ handed (s.pollRead p room).1) consumed'
      (s.pollRead p room).2 := by
  rw [FramedReader.pollRead]
  split
  case h_1 out rest hhand =>
    refine ⟨consumed,hs.source,?_⟩
    have hrun := hs.run
    rw [← (handOut_some hhand).1, ← List.append_assoc] at hrun
    exact hrun
  case h_2 => exact hs.receiveLoop h hfaultless

/-- In every session, over any source, the caller has some of what the decoder makes of what
has been read, and the reader has the rest. -/
theorem reads_consuming (h : p.Follows c) (hfaultless : ∀ state raw, (c.run state raw).fault = none)
    (hraw : s.raw = []) (hempty : s.buffer = []) {r : ReadSession (FramedReader σ α) α}
    (hr : Reads (FramedReader.pollRead p) s r) :
    ∃ consumed, Consuming c s.state (sourceBytes s.source) r.delivered consumed r.stream := by
  refine hr.invariant (fun r => ∃ consumed,
    Consuming c s.state (sourceBytes s.source) r.delivered consumed r.stream) ?_ ?_
  · refine ⟨[],rfl,?_⟩
    change (c.run s.state s.raw).after ([] ++ s.buffer) = c.run s.state []
    rw [hraw, hempty]
    rfl
  · rintro r room ⟨consumed,hs⟩ _ _
    obtain ⟨consumed',hs'⟩ := hs.pollRead h hfaultless room
    refine ⟨consumed',?_⟩
    rw [ReadSession.read]
    generalize FramedReader.pollRead p r.stream room = answer at hs' ⊢
    obtain ⟨result,st⟩ := answer
    cases result with
    | pending => simpa [handed, ReadSession.settle] using hs'
    | ready result =>
      cases result with
      | error err => simpa [handed, ReadSession.settle] using hs'
      | ok out => exact hs'

end FramedReader
end AtlasKernel.Lib
