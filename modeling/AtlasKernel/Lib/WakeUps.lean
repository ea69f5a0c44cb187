import AtlasKernel.Lib.PollIo

/-! Who wakes a task that goes to sleep. A call that is answered `Pending` must have got
`Pending` from the inner stream: the inner stream then has one such answer fewer. What is
counted is the `Pending` answers an inner stream still has. -/
namespace AtlasKernel.Lib
variable {α β σ : Type*}

def asleep : Poll β → Nat
  | .pending => 1
  | .ready _ => 0

/-- A task that is told to sleep has been registered with the inner stream. -/
def Registers (r : Poll β) (before after : Nat) : Prop := r = .pending → after < before

def readPendings : Source α → Nat
  | [] => 0
  | .pending :: src => readPendings src + 1
  | _ :: src => readPendings src

def writePendings : List WriteAnswer → Nat
  | [] => 0
  | .pending :: as => writePendings as + 1
  | _ :: as => writePendings as

def ReadExit.asleep : ReadExit → Nat
  | .pending => 1
  | _ => 0

def WriteExit.asleep : WriteExit → Nat
  | .pending => 1
  | _ => 0

/-! ## Reads -/

theorem pollRead_pendings (room : Nat) (src : Source α) :
    readPendings src = readPendings (pollRead room src).2 + asleep (pollRead room src).1 := by
  cases src with
  | nil => rfl
  | cons ev es =>
    cases ev with
    | pending => rfl
    | fail e => rfl
    | segment b bs =>
      rw [pollRead.eq_def]
      dsimp only
      split
      · rfl
      · rfl

/-- Something is handed out exactly if a segment comes next. -/
theorem pollRead_segment_iff {room : Nat} (hroom : 0 < room) (src : Source α) :
    (∃ b bs rest, src = .segment b bs :: rest) ↔
      ∃ c cs, (pollRead room src).1 = .ready (.ok (c :: cs)) := by
  rcases pollRead_cases room src with ⟨rfl,hr⟩ | ⟨es,rfl,hr⟩ | ⟨e,es,rfl,hr⟩ |
    ⟨b,bs,es,p,src',rfl,hr,_,_,hempty,_⟩
  · simp [hr]
  · simp [hr]
  · simp [hr]
  · have hp : p ≠ [] := fun hp => (Nat.ne_of_gt hroom) (hempty.mp hp)
    obtain ⟨c,cs,rfl⟩ := List.exists_cons_of_ne_nil hp
    rw [hr]
    exact ⟨fun _ => ⟨c, cs, rfl⟩, fun _ => ⟨b, bs, es, rfl⟩⟩

theorem readLoop_pendings (want : σ → Option Nat) (feed : σ → List α → σ) (s : σ) (src : Source α) :
    readPendings src = readPendings (readLoop want feed s src).2.2 + (readLoop want feed s src).1.asleep := by
  induction s, src using readLoop.induct want feed with
  | case1 s src hw =>
    rw [readLoop_done feed src hw]
    rfl
  | case2 s src room hw src' hr =>
    rw [readLoop_pending feed hw hr, pollRead_pendings room, hr]
    rfl
  | case3 s src room hw e src' hr =>
    rw [readLoop_error feed hw hr, pollRead_pendings room, hr]
    rfl
  | case4 s src room hw src' hr =>
    rw [readLoop_eof feed hw hr, pollRead_pendings room, hr]
    rfl
  | case5 s src room hw p src' hr hp ih =>
    rw [readLoop_feed hw hr hp, pollRead_pendings room, hr]
    exact ih

/-! ## Reads and writes -/

/-- An inner stream by its two halves. -/
abbrev Inner (α : Type*) := Source α × Sink α

def Inner.pendings (s : Inner α) : Nat := readPendings s.1 + writePendings s.2.answers

/-- From `s` to `s'` the inner stream has answered `Pending` `k` times; that is known if its
write half still has an answer left. -/
structure Drawn (s s' : Inner α) (k : Nat) : Prop where
  suffix : s'.2.answers <:+ s.2.answers
  count : s'.2.answers ≠ [] → s.pendings = s'.pendings + k

theorem Drawn.refl (s : Inner α) : Drawn s s 0 := ⟨List.suffix_rfl, fun _ => rfl⟩

theorem Drawn.trans {s s' s'' : Inner α} {k l : Nat} (h : Drawn s s' k) (h' : Drawn s' s'' l) :
    Drawn s s'' (k + l) := by
  refine ⟨h'.suffix.trans h.suffix, fun hne => ?_⟩
  have hmid : s'.2.answers ≠ [] := by
    intro hnil
    have hsuffix := h'.suffix
    rw [hnil] at hsuffix
    exact hne (List.suffix_nil.mp hsuffix)
  rw [h.count hmid, h'.count hne]
  omega

theorem Drawn.of_source {src src' : Source α} {sink : Sink α} {k : Nat}
    (h : readPendings src = readPendings src' + k) : Drawn (src, sink) (src', sink) k := by
  refine ⟨List.suffix_rfl, fun _ => ?_⟩
  change readPendings src + writePendings sink.answers =
    readPendings src' + writePendings sink.answers + k
  omega

theorem Drawn.pollWrite (src : Source α) (sink : Sink α) (data : List α) :
    Drawn (src, sink) (src, (sink.pollWrite data).2) (asleep (sink.pollWrite data).1) := by
  obtain ⟨answers,sent⟩ := sink
  cases answers with
  | nil => exact ⟨List.suffix_rfl, fun hne => absurd rfl hne⟩
  | cons a as =>
    cases a with
    | pending => exact ⟨List.suffix_cons .., fun _ => rfl⟩
    | accept q => exact ⟨List.suffix_cons .., fun _ => rfl⟩
    | fail e => exact ⟨List.suffix_cons .., fun _ => rfl⟩

theorem Drawn.writeLoop (src : Source α) (data : List α) (offset : Nat) (sink : Sink α) :
    Drawn (src, sink) (src, (writeLoop data offset sink).2.2) (writeLoop data offset sink).1.asleep := by
  induction offset, sink using writeLoop.induct data with
  | case1 offset s hlt s' hw | case2 offset s hlt e s' hw | case3 offset s hlt s' hw =>
    have hone := Drawn.pollWrite src s (data.drop offset)
    rw [hw] at hone
    rw [Lib.writeLoop, if_pos hlt, hw]
    exact hone
  | case4 offset s hlt n s' hw ih =>
    have hone := Drawn.pollWrite src s (data.drop offset)
    rw [hw] at hone
    rw [Lib.writeLoop, if_pos hlt, hw]
    exact Nat.zero_add (Lib.writeLoop data (offset + (n + 1)) s').1.asleep ▸ hone.trans ih
  | case5 offset s hge =>
    rw [Lib.writeLoop, if_neg hge]
    exact .refl _

/-- The call is answered `Pending` with no `Pending` of the inner stream exactly if `lost`. -/
def Sleeps (r : Poll β) (s s' : Inner α) (lost : Prop) : Prop :=
  ∃ k, Drawn s s' k ∧ (r = .pending ∧ k = 0 ↔ lost)

theorem Sleeps.registers_iff {r : Poll β} {s s' : Inner α} {lost : Prop} (h : Sleeps r s s' lost)
    (hleft : s'.2.answers ≠ []) : Registers r s.pendings s'.pendings ↔ ¬ lost := by
  obtain ⟨k,hdrawn,hlost⟩ := h
  rw [Registers, hdrawn.count hleft, ← hlost]
  constructor
  · rintro hreg ⟨hr,rfl⟩
    exact absurd (hreg hr) (Nat.lt_irrefl _)
  · intro hnot hr
    have hk : k ≠ 0 := fun hk => hnot ⟨hr, hk⟩
    omega

/-- Nothing is lost when the answer is that of the one inner poll. -/
theorem Drawn.sleeps {r : Poll β} {s s' : Inner α} (h : Drawn s s' (asleep r)) :
    Sleeps r s s' False := by
  refine ⟨asleep r, h, ?_⟩
  cases r with
  | pending => simp [asleep]
  | ready v => simp

/-- A call that is answered is not asleep. -/
theorem Drawn.ready {v : β} {s s' : Inner α} {k : Nat} (h : Drawn s s' k) :
    Sleeps (.ready v) s s' False := ⟨k, h, by simp⟩

theorem Sleeps.after {r : Poll β} {s s' s'' : Inner α} {lost : Prop} (h : Drawn s s' 0)
    (h' : Sleeps r s' s'' lost) : Sleeps r s s'' lost := by
  obtain ⟨k,hdrawn,hlost⟩ := h'
  exact ⟨k, Nat.zero_add k ▸ h.trans hdrawn, hlost⟩

theorem Sleeps.congr {r : Poll β} {s s' : Inner α} {lost lost' : Prop} (h : Sleeps r s s' lost)
    (hiff : lost ↔ lost') : Sleeps r s s' lost' := by
  obtain ⟨k,hdrawn,hlost⟩ := h
  exact ⟨k, hdrawn, hlost.trans hiff⟩

end AtlasKernel.Lib
