import Mathlib.Data.List.Basic
import Mathlib.Data.List.Infix

/-! Poll-based byte streams under an arbitrary schedule. A `Sink` answers each
write with `Pending`, a short write or an error; a `Source` answers each read
with `Pending`, a piece of what is left or an error. Which answer comes when is
data, so a statement about every schedule is a statement about every list. -/
namespace AtlasKernel.Lib
variable {α σ : Type*}

inductive Poll (β : Type*) where
  | pending
  | ready (value : β)
deriving DecidableEq, Repr

inductive ErrorKind where
  | writeZero | unexpectedEof | invalidData | invalidInput | notConnected | other
deriving DecidableEq, Repr

structure IoError where
  kind : ErrorKind
  message : String
deriving DecidableEq, Repr

abbrev IoResult (β : Type*) := Except IoError β

/-! ## Writing -/

inductive WriteAnswer where
  | pending
  | accept (quota : Nat)
  | fail (err : IoError)
deriving DecidableEq, Repr

/-- A sink remembers what it took. With no answer left it stays pending. -/
structure Sink (α : Type*) where
  answers : List WriteAnswer
  sent : List α
deriving DecidableEq, Repr

def Sink.pollWrite (s : Sink α) (data : List α) : Poll (IoResult Nat) × Sink α :=
  match s.answers with
  | [] => (.pending, s)
  | .pending :: as => (.pending, ⟨as, s.sent⟩)
  | .accept q :: as => (.ready (.ok (min q data.length)), ⟨as, s.sent ++ data.take q⟩)
  | .fail e :: as => (.ready (.error e), ⟨as, s.sent⟩)

/-- How many bytes the next answers take before one of them takes nothing. -/
def burst : List WriteAnswer → Nat
  | .accept (q+1) :: as => (q+1) + burst as
  | _ => 0

def Sink.burst (s : Sink α) : Nat := Lib.burst s.answers

/-- Every answer is `Pending` or takes at least one byte. -/
def Sink.Willing (s : Sink α) : Prop :=
  ∀ a ∈ s.answers, a = .pending ∨ ∃ q, a = .accept (q+1)

inductive WriteExit where
  | done | pending | zero
  | failed (err : IoError)
deriving DecidableEq, Repr

/-- `while offset < data.len() { offset += poll_write(&data[offset..])? }` -/
def writeLoop (data : List α) (offset : Nat) (s : Sink α) : WriteExit × Nat × Sink α :=
  if offset < data.length then
    match s.pollWrite (data.drop offset) with
    | (.pending, s') => (.pending, offset, s')
    | (.ready (.error e), s') => (.failed e, offset, s')
    | (.ready (.ok 0), s') => (.zero, offset, s')
    | (.ready (.ok (n+1)), s') => writeLoop data (offset+(n+1)) s'
  else (.done, offset, s)
termination_by data.length - offset

/-- What one run of the loop may have done: bytes move from `data` to the sink,
in order, and nothing else happens to either. -/
structure WriteProgress (data : List α) (offset : Nat) (s : Sink α)
    (r : WriteExit × Nat × Sink α) : Prop where
  le : offset ≤ r.2.1
  bound : r.2.1 ≤ data.length
  conserve : r.2.2.sent ++ data.drop r.2.1 = s.sent ++ data.drop offset
  done : r.1 = .done ↔ r.2.1 = data.length

/-- Bytes a write answer acknowledges. -/
def Poll.taken : Poll (IoResult Nat) → Nat
  | .ready (.ok n) => n
  | _ => 0

theorem pollWrite_sent (s : Sink α) (data : List α) :
    (s.pollWrite data).2.sent = s.sent ++ data.take (s.pollWrite data).1.taken ∧
    (s.pollWrite data).1.taken ≤ data.length := by
  rw [Sink.pollWrite]
  split
  · simp [Poll.taken]
  · simp [Poll.taken]
  · rename_i q _ _
    constructor
    · simp [Poll.taken, ← List.take_eq_take_min]
    · simp only [Poll.taken]; omega
  · simp [Poll.taken]

theorem pollWrite_sent_of {s s' : Sink α} {data : List α} {r : Poll (IoResult Nat)}
    (h : s.pollWrite data = (r, s')) :
    s'.sent = s.sent ++ data.take r.taken ∧ r.taken ≤ data.length := by
  simpa [h] using pollWrite_sent s data

/-- On a nonempty buffer the burst says whether the answer takes anything, and
how much further the following answers get. -/
theorem pollWrite_burst {s s' : Sink α} {data : List α} {r : Poll (IoResult Nat)}
    (h : s.pollWrite data = (r, s')) (hne : 0 < data.length) :
    (r.taken = 0 ↔ s.burst = 0) ∧
    (0 < r.taken → (data.length ≤ s.burst ↔ data.length - r.taken ≤ s'.burst)) := by
  rw [Sink.pollWrite] at h
  split at h
  · rename_i ha
    obtain ⟨rfl,rfl⟩ := Prod.mk.inj h
    simp [Poll.taken, Sink.burst, ha, burst]
  · rename_i ha
    obtain ⟨rfl,rfl⟩ := Prod.mk.inj h
    simp [Poll.taken, Sink.burst, ha, burst]
  · rename_i q as ha
    obtain ⟨rfl,rfl⟩ := Prod.mk.inj h
    cases q with
    | zero => simp [Poll.taken, Sink.burst, ha, burst]
    | succ q =>
      simp only [Poll.taken, Sink.burst, ha, burst]
      constructor <;> omega
  · rename_i ha
    obtain ⟨rfl,rfl⟩ := Prod.mk.inj h
    simp [Poll.taken, Sink.burst, ha, burst]

theorem writeLoop_progress (data : List α) (offset : Nat) (s : Sink α)
    (h : offset ≤ data.length) : WriteProgress data offset s (writeLoop data offset s) := by
  induction offset, s using writeLoop.induct data with
  | case1 offset s hlt s' hw | case3 offset s hlt s' hw =>
    rw [writeLoop, if_pos hlt, hw]
    have hs := (pollWrite_sent_of hw).1
    exact ⟨Nat.le_refl _, h, by simpa [Poll.taken] using hs, by simp; omega⟩
  | case2 offset s hlt e s' hw =>
    rw [writeLoop, if_pos hlt, hw]
    have hs := (pollWrite_sent_of hw).1
    exact ⟨Nat.le_refl _, h, by simpa [Poll.taken] using hs, by simp; omega⟩
  | case4 offset s hlt n s' hw ih =>
    rw [writeLoop, if_pos hlt, hw]
    obtain ⟨hs,hn⟩ := pollWrite_sent_of hw
    simp only [Poll.taken, List.length_drop] at hs hn
    obtain ⟨hle,hb,hc,hd⟩ := ih (by omega)
    refine ⟨Nat.le_trans (by omega) hle, hb, ?_, hd⟩
    rw [hc, hs, List.append_assoc, ← List.drop_drop, List.take_append_drop]
  | case5 offset s hge =>
    rw [writeLoop, if_neg hge]
    exact ⟨Nat.le_refl _, h, rfl, by simp; omega⟩

/-- The loop ends exactly when the next burst covers what is left. -/
theorem writeLoop_done_iff (data : List α) (offset : Nat) (s : Sink α) :
    (writeLoop data offset s).1 = .done ↔ data.length - offset ≤ s.burst := by
  induction offset, s using writeLoop.induct data with
  | case1 offset s hlt s' hw | case3 offset s hlt s' hw =>
    rw [writeLoop, if_pos hlt, hw]
    have hz := (pollWrite_burst hw (by rw [List.length_drop]; omega)).1.mp rfl
    simp [hz]; omega
  | case2 offset s hlt e s' hw =>
    rw [writeLoop, if_pos hlt, hw]
    have hz := (pollWrite_burst hw (by rw [List.length_drop]; omega)).1.mp rfl
    simp [hz]; omega
  | case4 offset s hlt n s' hw ih =>
    rw [writeLoop, if_pos hlt, hw]
    have hb := (pollWrite_burst hw (by rw [List.length_drop]; omega)).2 (Nat.succ_pos n)
    simp only [Poll.taken, List.length_drop] at hb
    simp only [ih]
    rw [hb, Nat.sub_sub]
  | case5 offset s hge =>
    rw [writeLoop, if_neg hge]
    simp; omega

/-- A schedule that takes nothing leaves the offset where it was. -/
theorem writeLoop_burst_zero (data : List α) (offset : Nat) (s : Sink α)
    (h : s.burst = 0) : (writeLoop data offset s).2.1 = offset := by
  induction offset, s using writeLoop.induct data with
  | case1 offset s hlt s' hw | case3 offset s hlt s' hw => rw [writeLoop, if_pos hlt, hw]
  | case2 offset s hlt e s' hw => rw [writeLoop, if_pos hlt, hw]
  | case4 offset s hlt n s' hw ih =>
    have hz := (pollWrite_burst hw (by rw [List.length_drop]; omega)).1.mpr h
    exact absurd hz (Nat.succ_ne_zero n)
  | case5 offset s hge => rw [writeLoop, if_neg hge]

theorem pollWrite_willing {s s' : Sink α} {data : List α} {r : Poll (IoResult Nat)}
    (hs : s.Willing) (h : s.pollWrite data = (r, s')) (hne : 0 < data.length) :
    s'.Willing ∧ (r = .pending ∨ ∃ n, r = .ready (.ok (n+1))) := by
  obtain ⟨answers,sent⟩ := s
  cases answers with
  | nil =>
    cases h
    exact ⟨hs,.inl rfl⟩
  | cons a as =>
    have hrest : ∀ sent' : List α, (⟨as,sent'⟩ : Sink α).Willing := by
      intro sent' a ha
      exact hs a (List.mem_cons_of_mem _ ha)
    obtain rfl | ⟨q,rfl⟩ := hs a List.mem_cons_self
    · cases h
      exact ⟨hrest sent,.inl rfl⟩
    · cases h
      refine ⟨hrest _,.inr ⟨min (q+1) data.length - 1,?_⟩⟩
      have hpos : min (q+1) data.length - 1 + 1 = min (q+1) data.length := by omega
      rw [hpos]

/-- A sink that only stalls or takes something lets the loop end or stall. -/
theorem writeLoop_willing (data : List α) (offset : Nat) (s : Sink α) (hs : s.Willing) :
    (writeLoop data offset s).2.2.Willing ∧
    ((writeLoop data offset s).1 = .done ∨ (writeLoop data offset s).1 = .pending) := by
  induction offset, s using writeLoop.induct data with
  | case1 offset s hlt s' hw =>
    rw [writeLoop, if_pos hlt, hw]
    exact ⟨(pollWrite_willing hs hw (by rw [List.length_drop]; omega)).1,.inr rfl⟩
  | case2 offset s hlt e s' hw | case3 offset s hlt s' hw =>
    obtain hr | ⟨n,hr⟩ := (pollWrite_willing hs hw (by rw [List.length_drop]; omega)).2 <;> cases hr
  | case4 offset s hlt n s' hw ih =>
    rw [writeLoop, if_pos hlt, hw]
    exact ih (pollWrite_willing hs hw (by rw [List.length_drop]; omega)).1
  | case5 offset s hge =>
    rw [writeLoop, if_neg hge]
    exact ⟨hs,.inl rfl⟩

/-! ## Reading -/

/-- A segment is what one read may hand out at most, so it is never empty: a
read of no bytes into a buffer with room is the end of the stream. -/
inductive ReadEvent (α : Type*) where
  | pending
  | segment (head : α) (tail : List α)
  | fail (err : IoError)
deriving DecidableEq, Repr

abbrev Source (α : Type*) := List (ReadEvent α)

def ReadEvent.bytes : ReadEvent α → List α
  | .segment b bs => b :: bs
  | _ => []

def sourceBytes (src : Source α) : List α := src.flatMap ReadEvent.bytes

@[simp] theorem sourceBytes_nil : sourceBytes ([] : Source α) = [] := rfl
@[simp] theorem sourceBytes_pending (src : Source α) :
    sourceBytes (.pending :: src) = sourceBytes src := rfl
@[simp] theorem sourceBytes_fail (e : IoError) (src : Source α) :
    sourceBytes (.fail e :: src) = sourceBytes src := rfl
@[simp] theorem sourceBytes_segment (b : α) (bs : List α) (src : Source α) :
    sourceBytes (.segment b bs :: src) = b :: (bs ++ sourceBytes src) := rfl

def pollRead (room : Nat) : Source α → Poll (IoResult (List α)) × Source α
  | [] => (.ready (.ok []), [])
  | .pending :: es => (.pending, es)
  | .fail e :: es => (.ready (.error e), es)
  | .segment b bs :: es =>
    match (b::bs).drop room with
    | [] => (.ready (.ok (b::bs)), es)
    | c :: cs => (.ready (.ok ((b::bs).take room)), .segment c cs :: es)

/-- What one read does, answer by answer. -/
theorem pollRead_cases (room : Nat) (src : Source α) :
    (src = [] ∧ pollRead room src = (.ready (.ok []), [])) ∨
    (∃ es, src = .pending :: es ∧ pollRead room src = (.pending, es)) ∨
    (∃ e es, src = .fail e :: es ∧ pollRead room src = (.ready (.error e), es)) ∨
    (∃ b bs es p src', src = .segment b bs :: es ∧
      pollRead room src = (.ready (.ok p), src') ∧ sourceBytes src = p ++ sourceBytes src' ∧
      p.length ≤ room ∧ (p = [] ↔ room = 0) ∧ src'.length ≤ src.length) := by
  cases src with
  | nil => exact .inl ⟨rfl,rfl⟩
  | cons ev es =>
    cases ev with
    | pending => exact .inr (.inl ⟨es,rfl,rfl⟩)
    | fail e => exact .inr (.inr (.inl ⟨e,es,rfl,rfl⟩))
    | segment b bs =>
      refine .inr (.inr (.inr ?_))
      cases hd : (b::bs).drop room with
      | nil =>
        have hl : bs.length+1 ≤ room := by simpa using List.drop_eq_nil_iff.mp hd
        exact ⟨b,bs,es,b::bs,es,rfl,by simp only [pollRead,hd],by simp,by simpa using hl,
          by simp; omega,by simp⟩
      | cons c cs =>
        have ht : (b::bs).take room ++ (c::cs) = b::bs := by rw [← hd]; exact List.take_append_drop ..
        refine ⟨b,bs,es,(b::bs).take room,.segment c cs::es,rfl,by simp only [pollRead,hd],?_,
          List.length_take_le ..,by simp,by simp⟩
        calc
          b :: (bs ++ sourceBytes es) = (b::bs) ++ sourceBytes es := rfl
          _ = ((b::bs).take room ++ (c::cs)) ++ sourceBytes es := by rw [ht]
          _ = (b::bs).take room ++ (c :: (cs ++ sourceBytes es)) := by simp

theorem pollRead_ok {room : Nat} {src src' : Source α} {p : List α}
    (h : pollRead room src = (.ready (.ok p), src')) :
    sourceBytes src = p ++ sourceBytes src' ∧ p.length ≤ room ∧
    src'.length ≤ src.length ∧ (p = [] → src' = src ∧ (src = [] ∨ room = 0)) := by
  rcases pollRead_cases room src with ⟨rfl,hr⟩ | ⟨es,rfl,hr⟩ | ⟨e,es,rfl,hr⟩ |
    ⟨b,bs,es,q,s',rfl,hr,hb,hl,he,hs⟩ <;> rw [hr] at h
  · cases h; simp
  · cases h
  · cases h
  · obtain ⟨hq,rfl⟩ := Prod.mk.inj h
    cases hq
    refine ⟨hb,hl,hs,fun hp => ?_⟩
    have h0 := he.mp hp
    subst h0
    simp only [pollRead,List.drop_zero,Prod.mk.injEq,Poll.ready.injEq] at hr
    exact ⟨hr.2.symm,.inr rfl⟩

theorem pollRead_pending {room : Nat} {src src' : Source α}
    (h : pollRead room src = (.pending, src')) : src = .pending :: src' := by
  rcases pollRead_cases room src with ⟨rfl,hr⟩ | ⟨es,rfl,hr⟩ | ⟨e,es,rfl,hr⟩ |
    ⟨b,bs,es,q,s',rfl,hr,_⟩ <;> rw [hr] at h <;> cases h
  rfl

theorem pollRead_error {room : Nat} {src src' : Source α} {e : IoError}
    (h : pollRead room src = (.ready (.error e), src')) : src = .fail e :: src' := by
  rcases pollRead_cases room src with ⟨rfl,hr⟩ | ⟨es,rfl,hr⟩ | ⟨e,es,rfl,hr⟩ |
    ⟨b,bs,es,q,s',rfl,hr,_⟩ <;> rw [hr] at h <;> cases h
  rfl

/-- The positions, counted in bytes from `n`, at which the source answers `Pending`. -/
def stalls (n : Nat) : Source α → List Nat
  | [] => []
  | .pending :: es => n :: stalls n es
  | .fail _ :: es => stalls n es
  | .segment _ bs :: es => stalls (n+1+bs.length) es

theorem stalls_add (n m : Nat) (src : Source α) :
    stalls (m+n) src = (stalls n src).map (m + ·) := by
  induction src generalizing n with
  | nil => rfl
  | cons ev es ih =>
    cases ev with
    | pending => simp [stalls, ih]
    | fail e => simp [stalls, ih]
    | segment b bs => simpa [stalls, Nat.add_assoc] using ih (n+(1+bs.length))

theorem stalls_read {room : Nat} {src src' : Source α} {p : List α}
    (h : pollRead room src = (.ready (.ok p), src')) (n : Nat) :
    stalls n src = stalls (n+p.length) src' := by
  cases src with
  | nil => cases h; rfl
  | cons ev es =>
    cases ev with
    | pending => cases h
    | fail e => cases h
    | segment b bs =>
      simp only [pollRead] at h
      cases hd : (b::bs).drop room with
      | nil =>
        rw [hd] at h
        cases h
        simp [stalls, Nat.add_comm, Nat.add_left_comm]
      | cons c cs =>
        rw [hd] at h
        cases h
        have hl : ((b::bs).take room).length + (c::cs).length = (b::bs).length := by
          rw [← hd, ← List.length_append, List.take_append_drop]
        simp only [List.length_cons] at hl
        simp only [stalls]
        congr 1
        omega

/-- Reads left in a source, counted so that every read that hands out something
lowers it. -/
def sourceSize (src : Source α) : Nat := src.length + (sourceBytes src).length

theorem sourceSize_pollRead {room : Nat} {src src' : Source α} {p : List α}
    (h : pollRead room src = (.ready (.ok p), src')) (hp : p ≠ []) :
    sourceSize src' < sourceSize src := by
  obtain ⟨hb,_,hl,_⟩ := pollRead_ok h
  have hpos := List.length_pos_iff.mpr hp
  simp only [sourceSize,hb,List.length_append]
  omega

inductive ReadExit where
  | done | pending | eof
  | failed (err : IoError)
deriving DecidableEq, Repr

/-- A loop of inner reads: `want` offers room for the next one or ends the loop,
`feed` takes in what came. -/
def readLoop (want : σ → Option Nat) (feed : σ → List α → σ) (s : σ) (src : Source α) :
    ReadExit × σ × Source α :=
  match want s with
  | none => (.done, s, src)
  | some room =>
    match _h : pollRead room src with
    | (.pending, src') => (.pending, s, src')
    | (.ready (.error e), src') => (.failed e, s, src')
    | (.ready (.ok p), src') =>
      if _hp : p = [] then (.eof, s, src') else readLoop want feed (feed s p) src'
termination_by sourceSize src
decreasing_by exact sourceSize_pollRead ‹_› ‹_›

theorem readLoop_done {want : σ → Option Nat} (feed : σ → List α → σ) {s : σ}
    (src : Source α) (h : want s = none) : readLoop want feed s src = (.done, s, src) := by
  rw [readLoop]; simp [h]

theorem readLoop_pending {want : σ → Option Nat} (feed : σ → List α → σ) {s : σ} {room : Nat}
    {src src' : Source α} (h : want s = some room) (hr : pollRead room src = (.pending, src')) :
    readLoop want feed s src = (.pending, s, src') := by
  rw [readLoop]; simp only [h]; split <;> simp_all

theorem readLoop_error {want : σ → Option Nat} (feed : σ → List α → σ) {s : σ} {room : Nat}
    {src src' : Source α} {e : IoError} (h : want s = some room)
    (hr : pollRead room src = (.ready (.error e), src')) :
    readLoop want feed s src = (.failed e, s, src') := by
  rw [readLoop]; simp only [h]; split <;> simp_all

theorem readLoop_eof {want : σ → Option Nat} (feed : σ → List α → σ) {s : σ} {room : Nat}
    {src src' : Source α} (h : want s = some room)
    (hr : pollRead room src = (.ready (.ok []), src')) :
    readLoop want feed s src = (.eof, s, src') := by
  rw [readLoop]; simp only [h]; split <;> simp_all

theorem readLoop_feed {want : σ → Option Nat} {feed : σ → List α → σ} {s : σ} {room : Nat}
    {src src' : Source α} {p : List α} (h : want s = some room)
    (hr : pollRead room src = (.ready (.ok p), src')) (hp : p ≠ []) :
    readLoop want feed s src = readLoop want feed (feed s p) src' := by
  conv_lhs => rw [readLoop]
  simp only [h]; split <;> simp_all

/-- How a read loop left its last state `s`: the source it stopped at, and the
one it hands back. -/
inductive ReadStop (want : σ → Option Nat) : ReadExit → σ → Source α → Source α → Prop where
  | done {s src} : want s = none → ReadStop want .done s src src
  | pending {s src room} : want s = some room → ReadStop want .pending s (.pending :: src) src
  | eof {s src room} : want s = some room → src = [] ∨ room = 0 → ReadStop want .eof s src src
  | failed {s src room e} : want s = some room →
      ReadStop want (.failed e) s (.fail e :: src) src

/-- The loop rule: what every read preserves holds where the loop stops. -/
theorem readLoop_rule (want : σ → Option Nat) (feed : σ → List α → σ)
    (I : σ → Source α → Prop)
    (hfeed : ∀ s src room p src', I s src → want s = some room →
      pollRead room src = (.ready (.ok p), src') → p ≠ [] → I (feed s p) src')
    (s : σ) (src : Source α) (h : I s src) :
    ∃ stop, I (readLoop want feed s src).2.1 stop ∧
      ReadStop want (readLoop want feed s src).1 (readLoop want feed s src).2.1 stop
        (readLoop want feed s src).2.2 := by
  induction s, src using readLoop.induct want feed with
  | case1 s src hw =>
    rw [readLoop_done feed src hw]
    exact ⟨src,h,.done hw⟩
  | case2 s src room hw src' hr =>
    rw [readLoop_pending feed hw hr]
    rw [pollRead_pending hr] at h
    exact ⟨_,h,.pending hw⟩
  | case3 s src room hw e src' hr =>
    rw [readLoop_error feed hw hr]
    rw [pollRead_error hr] at h
    exact ⟨_,h,.failed hw⟩
  | case4 s src room hw src' hr =>
    rw [readLoop_eof feed hw hr]
    obtain ⟨_,_,_,hp⟩ := pollRead_ok hr
    obtain ⟨rfl,he⟩ := hp rfl
    exact ⟨_,h,.eof hw he⟩
  | case5 s src room hw p src' hr hp ih =>
    rw [readLoop_feed hw hr hp]
    exact ih (hfeed s src room p src' h hw hr hp)

theorem readLoop_size_le (want : σ → Option Nat) (feed : σ → List α → σ) (s : σ)
    (src : Source α) : sourceSize (readLoop want feed s src).2.2 ≤ sourceSize src := by
  induction s, src using readLoop.induct want feed with
  | case1 s src hw => rw [readLoop_done feed src hw]
  | case2 s src room hw src' hr =>
    rw [readLoop_pending feed hw hr, pollRead_pending hr]
    simp [sourceSize]
  | case3 s src room hw e src' hr =>
    rw [readLoop_error feed hw hr, pollRead_error hr]
    simp [sourceSize]
  | case4 s src room hw src' hr =>
    rw [readLoop_eof feed hw hr, ((pollRead_ok hr).2.2.2 rfl).1]
  | case5 s src room hw p src' hr hp ih =>
    rw [readLoop_feed hw hr hp]
    exact Nat.le_trans ih (Nat.le_of_lt (sourceSize_pollRead hr hp))

/-- A loop that had something to read and ran to its end has read something. -/
theorem readLoop_size_lt (want : σ → Option Nat) (feed : σ → List α → σ) (s : σ)
    (src : Source α) (hw : want s ≠ none) (hd : (readLoop want feed s src).1 = .done) :
    sourceSize (readLoop want feed s src).2.2 < sourceSize src := by
  obtain ⟨room,hroom⟩ := Option.ne_none_iff_exists'.mp hw
  cases hr : pollRead room src with
  | mk r src' =>
    cases r with
    | pending => rw [readLoop_pending feed hroom hr] at hd; cases hd
    | ready r =>
      cases r with
      | error e => rw [readLoop_error feed hroom hr] at hd; cases hd
      | ok p =>
        by_cases hp : p = []
        · subst hp
          rw [readLoop_eof feed hroom hr] at hd
          cases hd
        · rw [readLoop_feed hroom hr hp]
          exact Nat.lt_of_le_of_lt (readLoop_size_le ..) (sourceSize_pollRead hr hp)

/-! ## Reading along a known stream -/

/-- `k` bytes of `wire` have been read, the rest is to come, and the source stalls at
no position that is `Bad`. -/
structure Ahead (wire : List α) (Bad : Nat → Prop) (k : Nat) (src : Source α) : Prop where
  rest : sourceBytes src = wire.drop k
  smooth : ∀ n ∈ stalls k src, ¬ Bad n

namespace Ahead
variable {wire : List α} {Bad : Nat → Prop} {k : Nat} {src src' : Source α}

theorem read {room : Nat} {p : List α} (h : Ahead wire Bad k src)
    (hr : pollRead room src = (.ready (.ok p), src')) :
    p = (wire.drop k).take p.length ∧ Ahead wire Bad (k+p.length) src' := by
  have hb := (pollRead_ok hr).1
  rw [h.rest] at hb
  refine ⟨by simp [hb], ?_, ?_⟩
  · rw [← List.drop_drop, hb, List.drop_left]
  · intro n hn
    exact h.smooth n (stalls_read hr k ▸ hn)

theorem pending (h : Ahead wire Bad k (.pending :: src)) : Ahead wire Bad k src ∧ ¬ Bad k :=
  ⟨⟨h.rest, fun n hn => h.smooth n (List.mem_cons_of_mem _ hn)⟩, h.smooth k List.mem_cons_self⟩

/-- A stream whose first part has been read goes on with its second part. -/
theorem shift {Bad' : Nat → Prop} {pre : List α} (h : Ahead (pre ++ wire) Bad pre.length src)
    (hbad : ∀ n, Bad' n → Bad (pre.length+n)) : Ahead wire Bad' 0 src := by
  refine ⟨by rw [h.rest, List.drop_left, List.drop_zero], ?_⟩
  intro n hn hb
  refine h.smooth (pre.length+n) ?_ (hbad n hb)
  rw [← Nat.add_zero pre.length, stalls_add]
  exact List.mem_map_of_mem hn

end Ahead

/-- A loop that reads up to position `stop` of the stream, with a state `P k` that
tells the position: it arrives there, or stalls at a position on the way, or fails
with bytes still to come. -/
theorem readLoop_ahead {wire : List α} {Bad : Nat → Prop} (want : σ → Option Nat)
    (feed : σ → List α → σ) (stop : Nat) (P : Nat → σ → Prop) (hstop : stop ≤ wire.length)
    (hwant : ∀ k s, P k s → (k = stop ∧ want s = none) ∨
      ∃ room, want s = some room ∧ 0 < room ∧ k+room ≤ stop)
    (hfeed : ∀ k s p, P k s → k+p.length ≤ stop → p = (wire.drop k).take p.length →
      P (k+p.length) (feed s p))
    {k : Nat} {s : σ} {src : Source α} (hs : P k s) (ha : Ahead wire Bad k src) :
    (∃ s' src', readLoop want feed s src = (.done, s', src') ∧ P stop s' ∧
      Ahead wire Bad stop src') ∨
    (∃ k' s' src', readLoop want feed s src = (.pending, s', src') ∧ P k' s' ∧ k' < stop ∧
      Ahead wire Bad k' src' ∧ ¬ Bad k') ∨
    (∃ e s' src', readLoop want feed s src = (.failed e, s', src') ∧ sourceBytes src' ≠ []) := by
  have hrule := readLoop_rule want feed (fun s src => ∃ k, P k s ∧ Ahead wire Bad k src) ?_
    s src ⟨k,hs,ha⟩
  · obtain ⟨at_,⟨k',hk,hat⟩,hstopped⟩ := hrule
    generalize readLoop want feed s src = r at hk hstopped
    obtain ⟨exit,s',src'⟩ := r
    have hmore : ∀ room, want s' = some room → k' < stop := by
      intro room hw
      obtain ⟨_,hn⟩ | ⟨room',_,hpos,hle⟩ := hwant k' s' hk
      · rw [hn] at hw
        cases hw
      · omega
    have hleft : k' < stop → wire.drop k' ≠ [] := by
      intro hlt h0
      have := List.drop_eq_nil_iff.mp h0
      omega
    cases hstopped with
    | done hw =>
      obtain ⟨rfl,_⟩ | ⟨room,hw',_⟩ := hwant k' s' hk
      · exact .inl ⟨s',_,rfl,hk,hat⟩
      · rw [hw] at hw'
        cases hw'
    | pending hw =>
      obtain ⟨hat',hb⟩ := hat.pending
      exact .inr (.inl ⟨k',s',_,rfl,hk,hmore _ hw,hat',hb⟩)
    | eof hw hempty =>
      obtain ⟨_,hn⟩ | ⟨room',hw',hpos,hle⟩ := hwant k' s' hk
      · rw [hn] at hw
        cases hw
      · have hroom := Option.some.inj (hw.symm.trans hw')
        obtain rfl | h0 := hempty
        · exact absurd hat.rest.symm (hleft (hmore _ hw))
        · omega
    | failed hw =>
      refine .inr (.inr ⟨_,s',_,rfl,?_⟩)
      have hr := hat.rest
      rw [sourceBytes_fail] at hr
      rw [hr]
      exact hleft (hmore _ hw)
  · rintro s src room p src' ⟨k,hk,hat⟩ hw hr _
    obtain ⟨hp,hat'⟩ := hat.read hr
    obtain ⟨_,hn⟩ | ⟨room',hw',_,hle⟩ := hwant k s hk
    · rw [hn] at hw
      cases hw
    · have hroom := Option.some.inj (hw.symm.trans hw')
      have hlen := (pollRead_ok hr).2.1
      exact ⟨k+p.length,hfeed k s p hk (by omega) hp,hat'⟩

end AtlasKernel.Lib
