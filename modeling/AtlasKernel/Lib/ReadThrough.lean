import AtlasKernel.Lib.FramedReader

/-! A stream that reads through another one. It answers from its buffer, or reads pieces of the
inner stream and decodes them until there is something to hand out. Whatever the inner stream is,
its side is a session of a reader, and what the outer reader has is what the pieces decode to. -/
namespace AtlasKernel.Lib
variable {α β κ σ : Type*}

/-- A stream to read from. What it can still hand out is limited by `size`. -/
structure ByteReader (σ α : Type*) where
  poll : σ → Nat → Poll (IoResult (List α)) × σ
  size : σ → Nat
  bounded : ∀ {s room p s'}, poll s room = (.ready (.ok p), s') → p.length ≤ room
  shrinks : ∀ {s room p s'}, poll s room = (.ready (.ok p), s') → p ≠ [] → size s' < size s
  ended : ∀ {s room s'}, poll s room = (.ready (.ok []), s') → size s' ≤ size s
  waits : ∀ {s room s'}, poll s room = (.pending, s') → size s' < size s

def Source.reader : ByteReader (Source α) α where
  poll s room := pollRead room s
  size := sourceSize
  bounded h := (pollRead_ok h).2.1
  shrinks := sourceSize_pollRead
  ended h := by
    obtain ⟨rfl,_⟩ := (pollRead_ok h).2.2.2 rfl
    exact Nat.le_refl _
  waits h := by
    rw [pollRead_pending h]
    exact sourceSize_pending

/-- What is read from a source is what it held. -/
theorem Reads.source {src : Source α} {t : ReadSession (Source α) α}
    (h : Reads Source.reader.poll src t) (hsrc : Flawless src) :
    t.delivered ++ sourceBytes t.stream = sourceBytes src ∧ Flawless t.stream ∧
      (t.last = some (.ready (.ok [])) → sourceBytes t.stream = []) := by
  refine h.invariant (fun t => t.delivered ++ sourceBytes t.stream = sourceBytes src ∧
    Flawless t.stream ∧ (t.last = some (.ready (.ok [])) → sourceBytes t.stream = []))
    ⟨rfl,hsrc,by rintro ⟨⟩⟩ ?_
  rintro ⟨st,delivered,last⟩ room ⟨hbytes,hflawless,_⟩ _ hroom
  obtain ⟨⟨r,st'⟩,hr⟩ : ∃ answer, pollRead room st = answer := ⟨_,rfl⟩
  have hpoll : Source.reader.poll st room = (r, st') := hr
  obtain ⟨hflawless',hnone⟩ := hflawless.read hr
  rw [ReadSession.read, hpoll]
  cases r with
  | pending =>
    obtain rfl := pollRead_pending hr
    exact ⟨hbytes,hflawless',by rintro ⟨⟩⟩
  | ready r =>
    cases r with
    | error err => exact absurd rfl (hnone err)
    | ok p =>
      obtain ⟨hsplit,_,_,hnil⟩ := pollRead_ok hr
      refine ⟨?_,hflawless',fun hlast => ?_⟩
      · dsimp only [ReadSession.settle] at hbytes ⊢
        rw [List.append_assoc, ← hsplit]
        exact hbytes
      · obtain rfl : p = [] := by simpa [ReadSession.settle] using hlast
        obtain ⟨rfl,rfl | hzero⟩ := hnil rfl
        · rfl
        · exact absurd hzero (Nat.ne_of_gt hroom)

theorem ReadSession.failed_iff {s : ReadSession σ α} :
    s.failed = true ↔ ∃ err, s.last = some (.ready (.error err)) := by
  obtain ⟨st,delivered,last⟩ := s
  cases last with
  | none => simp [ReadSession.failed]
  | some answer =>
    cases answer with
    | pending => simp [ReadSession.failed]
    | ready result => cases result <;> simp [ReadSession.failed]

theorem Reads.flawless {src : Source α} {t : ReadSession (Source α) α}
    (h : Reads Source.reader.poll src t) (hsrc : Flawless src) (err : IoError) :
    t.last ≠ some (.ready (.error err)) := by
  cases h with
  | start => rintro ⟨⟩
  | @read t room ht _ _ =>
    obtain ⟨_,hflawless,_⟩ := ht.source hsrc
    obtain ⟨⟨r,st'⟩,hr⟩ : ∃ answer, pollRead room t.stream = answer := ⟨_,rfl⟩
    have hpoll : Source.reader.poll t.stream room = (r, st') := hr
    have hnone := (hflawless.read hr).2 err
    rw [ReadSession.read, hpoll]
    cases r with
    | pending => rintro ⟨⟩
    | ready result =>
      cases result with
      | ok out => rintro ⟨⟩
      | error err' =>
        intro heq
        cases heq
        exact hnone rfl

/-- What a decoder makes of one piece: what it appends to the buffer, and how it goes on. -/
structure Piece (κ β : Type*) where
  out : List β
  fault : Option IoError
  codec : κ

/-- The pieces one after another, up to the first that cannot be decoded. -/
def decodeAll (decode : κ → List α → Piece κ β) (k : κ) : List (List α) → Piece κ β
  | [] => ⟨[], none, k⟩
  | piece :: pieces =>
    let r := decode k piece
    match r.fault with
    | some _ => r
    | none =>
      let r' := decodeAll decode r.codec pieces
      { r' with out := r.out ++ r'.out }

theorem decodeAll_concat {decode : κ → List α → Piece κ β} {k : κ} {pieces : List (List α)}
    (h : (decodeAll decode k pieces).fault = none) (piece : List α) :
    decodeAll decode k (pieces ++ [piece]) =
      { decode (decodeAll decode k pieces).codec piece with
        out := (decodeAll decode k pieces).out ++
          (decode (decodeAll decode k pieces).codec piece).out } := by
  induction pieces generalizing k with
  | nil =>
    rw [List.nil_append, decodeAll, decodeAll]
    dsimp only
    rw [List.nil_append]
    cases hfault : (decode k piece).fault with
    | none => simp [decodeAll, ← hfault]
    | some err => simp [← hfault]
  | cons first pieces ih =>
    rw [List.cons_append]
    simp only [decodeAll] at h ⊢
    cases hfault : (decode k first).fault with
    | some err => simp [hfault] at h
    | none =>
      simp only [hfault] at h
      simp only [ih h, List.append_assoc]

structure Layered (σ κ β : Type*) where
  inner : σ
  codec : κ
  buffer : List β
deriving DecidableEq, Repr

namespace ByteReader
open FramedReader

/-- `loop { inner.poll_read(&mut temp)?; codec.decode(temp, &mut buffer)?; drain(buffer) }` -/
def throughLoop (r : ByteReader σ α) (decode : κ → List α → Piece κ β) (chunk room : Nat)
    (s : Layered σ κ β) : Poll (IoResult (List β)) × Layered σ κ β :=
  match _h : r.poll s.inner chunk with
  | (.pending, inner) => (.pending, { s with inner := inner })
  | (.ready (.error err), inner) => (.ready (.error err), { s with inner := inner })
  | (.ready (.ok filled), inner) =>
    if _hp : filled = [] then (.ready (.ok []), { s with inner := inner })
    else
      let piece := decode s.codec filled
      let s' : Layered σ κ β := ⟨inner, piece.codec, s.buffer ++ piece.out⟩
      match piece.fault with
      | some err => (.ready (.error err), s')
      | none =>
        match handOut s'.buffer room with
        | some (out, rest) => (.ready (.ok out), { s' with buffer := rest })
        | none => throughLoop r decode chunk room s'
termination_by r.size s.inner
decreasing_by exact r.shrinks _h _hp

def pollThrough (r : ByteReader σ α) (decode : κ → List α → Piece κ β) (chunk : Nat)
    (s : Layered σ κ β) (room : Nat) : Poll (IoResult (List β)) × Layered σ κ β :=
  match handOut s.buffer room with
  | some (out, rest) => (.ready (.ok out), { s with buffer := rest })
  | none => r.throughLoop decode chunk room s

variable {r : ByteReader σ α} {decode : κ → List α → Piece κ β} {chunk : Nat} {st₀ : σ} {k : κ}

/-- What is buffered and delivered is what the pieces decode to, and the inner reader is between
two reads. -/
structure Level (r : ByteReader σ α) (decode : κ → List α → Piece κ β) (st₀ : σ) (k : κ)
    (s : Layered σ κ β) (delivered : List β) (t : ReadSession σ α) (pieces : List (List α)) :
    Prop where
  reads : Reads r.poll st₀ t
  inner : t.stream = s.inner
  cut : pieces.flatten = t.delivered
  live : t.failed = false
  decoded : decodeAll decode k pieces = ⟨delivered ++ s.buffer, none, s.codec⟩

/-- How an answer to the outer reader stands to the inner one. -/
def Answered (r : ByteReader σ α) (decode : κ → List α → Piece κ β) (st₀ : σ) (k : κ)
    (answer : Poll (IoResult (List β))) (s : Layered σ κ β) (delivered : List β)
    (t : ReadSession σ α) (pieces : List (List α)) : Prop :=
  match answer with
  | .pending => Level r decode st₀ k s delivered t pieces ∧ t.last = some .pending
  | .ready (.ok out) => Level r decode st₀ k s (delivered ++ out) t pieces ∧
      (out = [] → t.last = some (.ready (.ok [])) ∧ s.buffer = [])
  | .ready (.error err) => Reads r.poll st₀ t ∧ t.stream = s.inner ∧ pieces.flatten = t.delivered ∧
      (decodeAll decode k pieces).out = delivered ++ s.buffer ∧
      (t.last = some (.ready (.error err)) ∧ (decodeAll decode k pieces).fault = none ∨
        (decodeAll decode k pieces).fault = some err)

theorem handOut_level {s : Layered σ κ β} {delivered out rest : List β} {t : ReadSession σ α}
    {pieces : List (List α)} {room : Nat} (h : Level r decode st₀ k s delivered t pieces)
    (hout : handOut s.buffer room = some (out, rest)) :
    Answered r decode st₀ k (.ready (.ok out)) { s with buffer := rest } delivered t pieces := by
  obtain ⟨hsplit,hne⟩ := handOut_some hout
  obtain ⟨hreads,hinner,hpieces,hopen,hdecoded⟩ := h
  refine ⟨⟨hreads,hinner,hpieces,hopen,?_⟩,fun hnil => absurd hnil hne⟩
  rw [hdecoded, List.append_assoc, hsplit]

/-- One read of the inner stream by a reader that has not failed. -/
theorem Level.read {s : Layered σ κ β} {delivered : List β} {t : ReadSession σ α}
    {pieces : List (List α)} (h : Level r decode st₀ k s delivered t pieces) (hchunk : 0 < chunk)
    {answer : Poll (IoResult (List α))} {inner : σ} (hr : r.poll s.inner chunk = (answer, inner)) :
    ∃ t', Reads r.poll st₀ t' ∧ t'.stream = inner ∧ t'.last = some answer ∧
      t'.delivered = t.delivered ++ (match answer with
        | .ready (.ok p) => p
        | _ => []) := by
  have hread := h.reads.read chunk h.live hchunk
  rw [ReadSession.read, h.inner, hr] at hread
  refine ⟨_,hread,?_⟩
  cases answer with
  | pending => exact ⟨rfl,rfl,(List.append_nil _).symm⟩
  | ready result =>
    cases result with
    | error err => exact ⟨rfl,rfl,(List.append_nil _).symm⟩
    | ok p => exact ⟨rfl,rfl,rfl⟩

theorem throughLoop_answered {s : Layered σ κ β} {delivered : List β} {t : ReadSession σ α}
    {pieces : List (List α)} {room : Nat} (h : Level r decode st₀ k s delivered t pieces)
    (hempty : s.buffer = []) (hchunk : 0 < chunk) (hroom : 0 < room) :
    ∃ t' pieces', Answered r decode st₀ k (r.throughLoop decode chunk room s).1
      (r.throughLoop decode chunk room s).2 delivered t' pieces' := by
  induction hsize : r.size s.inner using Nat.strong_induction_on generalizing s t pieces with
  | _ size ih =>
    obtain ⟨⟨answer,inner⟩,hr⟩ : ∃ a, r.poll s.inner chunk = a := ⟨_,rfl⟩
    obtain ⟨t',hreads,hinner,hlast,hdelivered⟩ := h.read hchunk hr
    have hdecoded := h.decoded
    rw [throughLoop]
    split
    case h_1 inner' heq =>
      cases hr.symm.trans heq
      rw [List.append_nil] at hdelivered
      refine ⟨t',pieces,⟨hreads,hinner,h.cut.trans hdelivered.symm,?_,hdecoded⟩,hlast⟩
      rw [ReadSession.failed, hlast]
    case h_2 err inner' heq =>
      cases hr.symm.trans heq
      rw [List.append_nil] at hdelivered
      refine ⟨t',pieces,hreads,hinner,h.cut.trans hdelivered.symm,by rw [hdecoded],.inl ⟨hlast,?_⟩⟩
      rw [hdecoded]
    case h_3 filled inner' heq =>
      cases hr.symm.trans heq
      have hlive : t'.failed = false := by rw [ReadSession.failed, hlast]
      by_cases hp : filled = []
      · subst hp
        rw [dif_pos rfl]
        rw [List.append_nil] at hdelivered
        exact ⟨t',pieces,⟨hreads,hinner,h.cut.trans hdelivered.symm,hlive,by
          rw [List.append_nil]; exact hdecoded⟩,fun _ => ⟨hlast,hempty⟩⟩
      · rw [dif_neg hp]
        have hcut : (pieces ++ [filled]).flatten = t'.delivered := by
          rw [List.flatten_append, List.flatten_singleton, h.cut, hdelivered]
        have hnext := decodeAll_concat (by rw [hdecoded]) filled
        rw [hdecoded] at hnext
        dsimp only at hnext ⊢
        cases hfault : (decode s.codec filled).fault with
        | some err =>
          rw [hfault] at hnext
          refine ⟨t',pieces ++ [filled],hreads,hinner,hcut,?_,.inr ?_⟩
          · rw [hnext, List.append_assoc]
          · rw [hnext]
        | none =>
          rw [hfault, List.append_assoc] at hnext
          have hlevel : Level r decode st₀ k ⟨inner,(decode s.codec filled).codec,
              s.buffer ++ (decode s.codec filled).out⟩ delivered t' (pieces ++ [filled]) :=
            ⟨hreads,hinner,hcut,hlive,hnext⟩
          dsimp only
          split
          case h_1 out rest hout => exact ⟨t',_,handOut_level hlevel hout⟩
          case h_2 hout =>
            exact ih _ (hsize ▸ r.shrinks hr hp) hlevel (handOut_none hout hroom) rfl

/-- One call of the outer reader. -/
theorem pollThrough_answered {s : Layered σ κ β} {delivered : List β} {t : ReadSession σ α}
    {pieces : List (List α)} {room : Nat} (h : Level r decode st₀ k s delivered t pieces)
    (hchunk : 0 < chunk) (hroom : 0 < room) :
    ∃ t' pieces', Answered r decode st₀ k (r.pollThrough decode chunk s room).1
      (r.pollThrough decode chunk s room).2 delivered t' pieces' := by
  rw [pollThrough]
  split
  case h_1 out rest hout => exact ⟨t,pieces,handOut_level h hout⟩
  case h_2 hout => exact throughLoop_answered h (handOut_none hout hroom) hchunk hroom

/-- The session of the inner reader behind one of the outer reader. -/
def Behind (r : ByteReader σ α) (decode : κ → List α → Piece κ β) (st₀ : σ) (k : κ)
    (s : ReadSession (Layered σ κ β) β) (t : ReadSession σ α) (pieces : List (List α)) : Prop :=
  match s.last with
  | none => Level r decode st₀ k s.stream s.delivered t pieces
  | some .pending => Level r decode st₀ k s.stream s.delivered t pieces ∧ t.last = some .pending
  | some (.ready (.ok out)) => Level r decode st₀ k s.stream s.delivered t pieces ∧
      (out = [] → t.last = some (.ready (.ok [])) ∧ s.stream.buffer = [])
  | some (.ready (.error err)) => Reads r.poll st₀ t ∧ t.stream = s.stream.inner ∧
      pieces.flatten = t.delivered ∧
      (decodeAll decode k pieces).out = s.delivered ++ s.stream.buffer ∧
      (t.last = some (.ready (.error err)) ∧ (decodeAll decode k pieces).fault = none ∨
        (decodeAll decode k pieces).fault = some err)

theorem Behind.level {s : ReadSession (Layered σ κ β) β} {t : ReadSession σ α}
    {pieces : List (List α)} (h : Behind r decode st₀ k s t pieces) (hlive : s.failed = false) :
    Level r decode st₀ k s.stream s.delivered t pieces := by
  obtain ⟨st,delivered,last⟩ := s
  cases last with
  | none => exact h
  | some answer =>
    cases answer with
    | pending => exact h.1
    | ready result =>
      cases result with
      | ok out => exact h.1
      | error err => cases hlive

theorem Behind.got {s : ReadSession (Layered σ κ β) β} {t : ReadSession σ α}
    {pieces : List (List α)} (h : Behind r decode st₀ k s t pieces) :
    Reads r.poll st₀ t ∧ pieces.flatten = t.delivered ∧
      (decodeAll decode k pieces).out = s.delivered ++ s.stream.buffer := by
  cases hfailed : s.failed with
  | false =>
    obtain ⟨hreads,_,hcut,_,hdecoded⟩ := h.level hfailed
    exact ⟨hreads,hcut,by rw [hdecoded]⟩
  | true =>
    obtain ⟨st,delivered,last⟩ := s
    cases last with
    | none => cases hfailed
    | some answer =>
      cases answer with
      | pending => cases hfailed
      | ready result =>
        cases result with
        | ok out => cases hfailed
        | error err => exact ⟨h.1,h.2.2.1,h.2.2.2.1⟩

/-- Whatever a reader does, the inner stream is read as it should be, and nothing that comes from
it is lost, doubled or out of order. -/
theorem reads_through {s : ReadSession (Layered σ κ β) β} (hchunk : 0 < chunk)
    (h : Reads (r.pollThrough decode chunk) ⟨st₀, k, []⟩ s) :
    ∃ t pieces, Behind r decode st₀ k s t pieces := by
  induction h with
  | start => exact ⟨.start st₀,[],.start,rfl,rfl,rfl,rfl⟩
  | @read s room _ hlive hroom ih =>
    obtain ⟨t,pieces,hbehind⟩ := ih
    obtain ⟨t',pieces',hanswered⟩ := pollThrough_answered (hbehind.level hlive) hchunk hroom
    refine ⟨t',pieces',?_⟩
    rw [ReadSession.read]
    generalize r.pollThrough decode chunk s.stream room = answer at hanswered
    obtain ⟨result,st⟩ := answer
    cases result with
    | pending => exact hanswered
    | ready result =>
      cases result with
      | ok out => exact hanswered
      | error err => exact hanswered

/-! ## Reading to the end -/

/-- What one call leaves of the inner stream. -/
def Leaves (r : ByteReader σ α) (n : Nat) (answer : Poll (IoResult (List β)) × Layered σ κ β) :
    Prop :=
  match answer.1 with
  | .pending => r.size answer.2.inner < n
  | .ready (.ok _) => r.size answer.2.inner ≤ n
  | .ready (.error _) => True

theorem throughLoop_leaves {room : Nat} (s : Layered σ κ β) :
    Leaves r (r.size s.inner) (r.throughLoop decode chunk room s) := by
  induction hsize : r.size s.inner using Nat.strong_induction_on generalizing s with
  | _ size ih =>
    rw [throughLoop]
    split
    case h_1 inner heq => exact hsize ▸ r.waits heq
    case h_2 err inner heq => trivial
    case h_3 filled inner heq =>
      by_cases hp : filled = []
      · subst hp
        rw [dif_pos rfl]
        exact hsize ▸ r.ended heq
      · have hlt := r.shrinks heq hp
        rw [hsize] at hlt
        rw [dif_neg hp]
        dsimp only
        split
        · trivial
        · split
          case h_1 => exact Nat.le_of_lt hlt
          case h_2 =>
            have hrest := ih _ hlt ⟨inner,(decode s.codec filled).codec,
              s.buffer ++ (decode s.codec filled).out⟩ rfl
            revert hrest
            generalize r.throughLoop decode chunk room _ = answer
            obtain ⟨result,st⟩ := answer
            cases result with
            | pending => exact fun h => Nat.lt_trans h hlt
            | ready result =>
              cases result with
              | ok out => exact fun h => Nat.le_trans h (Nat.le_of_lt hlt)
              | error err => exact id

theorem pollThrough_leaves {room : Nat} (s : Layered σ κ β) :
    Leaves r (r.size s.inner) (r.pollThrough decode chunk s room) := by
  rw [pollThrough]
  split
  · exact Nat.le_refl _
  · exact throughLoop_leaves s

end ByteReader

/-- A measure of the session that falls with every answer but the last brings a reader to the end
of the stream or to an error. -/
theorem Reads.ends_by {poll : σ → Nat → Poll (IoResult (List α)) × σ} {st₀ : σ}
    (measure : ReadSession σ α → Nat) {room : Nat} (hroom : 0 < room)
    (hstep : ∀ s, Reads poll st₀ s → s.failed = false →
      (s.read poll room).failed = true ∨ (s.read poll room).last = some (.ready (.ok [])) ∨
      measure (s.read poll room) < measure s) :
    ∃ s, Reads poll st₀ s ∧ (s.last = some (.ready (.ok [])) ∨ s.failed = true) := by
  have hgo : ∀ n s, measure s = n → Reads poll st₀ s → s.failed = false →
      ∃ s, Reads poll st₀ s ∧ (s.last = some (.ready (.ok [])) ∨ s.failed = true) := by
    intro n
    induction n using Nat.strong_induction_on with
    | _ n ih =>
      intro s hn hs hlive
      have hread := hs.read room hlive hroom
      obtain hfail | hend | hlt := hstep s hs hlive
      · exact ⟨_,hread,.inr hfail⟩
      · exact ⟨_,hread,.inl hend⟩
      · cases hfailed : (s.read poll room).failed with
        | true => exact ⟨_,hread,.inr hfailed⟩
        | false => exact ih _ (hn ▸ hlt) _ rfl hread hfailed
  exact hgo _ _ rfl .start rfl

/-- A reader through another stream gets to the end or to an error, if there is only so much to
get. -/
theorem ByteReader.through_ends (r : ByteReader σ α) (decode : κ → List α → Piece κ β)
    (chunk limit : Nat) {st₀ : σ} {k : κ} {room : Nat} (hroom : 0 < room)
    (hlimit : ∀ s, Reads (r.pollThrough decode chunk) ⟨st₀, k, []⟩ s → s.delivered.length ≤ limit) :
    ∃ s, Reads (r.pollThrough decode chunk) ⟨st₀, k, []⟩ s ∧
      (s.last = some (.ready (.ok [])) ∨ s.failed = true) := by
  refine Reads.ends_by (fun s => r.size s.stream.inner + (limit - s.delivered.length)) hroom ?_
  intro s hs hlive
  have hread := hs.read room hlive hroom
  have hbound := hlimit _ hread
  have hleaves := @pollThrough_leaves _ _ _ _ r decode chunk room s.stream
  rw [ReadSession.read] at hbound ⊢
  generalize r.pollThrough decode chunk s.stream room = answer at hleaves hbound
  obtain ⟨result,st⟩ := answer
  cases result with
  | pending =>
    have hlt : r.size st.inner < r.size s.stream.inner := hleaves
    exact .inr (.inr (Nat.add_lt_add_right hlt _))
  | ready result =>
    cases result with
    | error err => exact .inl rfl
    | ok out =>
      have hle : r.size st.inner ≤ r.size s.stream.inner := hleaves
      by_cases hout : out = []
      · subst hout
        exact .inr (.inl rfl)
      · have hpos := List.length_pos_iff.mpr hout
        dsimp only [ReadSession.settle] at hbound ⊢
        rw [List.length_append] at hbound ⊢
        exact .inr (.inr (by omega))

end AtlasKernel.Lib
