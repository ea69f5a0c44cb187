import Mathlib.Data.List.Basic

/-! Incremental decoders that may reject. The front of the buffer is an accepted frame,
a fault, or not decided yet; once decided it stays decided, whatever arrives behind it.
Hence the cuts between two pieces of input make no difference before the first fault. -/
namespace AtlasKernel.Lib
variable {σ α β ε κ τ ι : Type*}

/-- The front of a buffer. A frame says how long it is, a fault says what is left of the
buffer after it. -/
inductive Verdict (σ α β ε : Type*) where
  | wait (s : σ)
  | frame (s : σ) (n : Nat) (out : List β)
  | fault (s : σ) (rest : List α) (e : ε)

structure FrameDecoder (σ α β ε : Type*) where
  inspect : σ → List α → Verdict σ α β ε
  frame_fits : ∀ {s buf s' n out}, inspect s buf = .frame s' n out → 0 < n ∧ n ≤ buf.length
  frame_stable : ∀ {s buf s' n out}, inspect s buf = .frame s' n out →
    ∀ more, inspect s (buf ++ more) = .frame s' n out
  fault_stable : ∀ {s buf s' rest e}, inspect s buf = .fault s' rest e →
    ∀ more, ∃ rest', inspect s (buf ++ more) = .fault s' rest' e
  wait_stable : ∀ {s buf s'}, inspect s buf = .wait s' →
    ∀ more, inspect s' (buf ++ more) = inspect s (buf ++ more)

structure Decoded (σ α β ε : Type*) where
  state : σ
  rest : List α
  out : List β
  fault : Option ε

/-- What came before, and then this. -/
def Decoded.after (out : List β) (r : Decoded σ α β ε) : Decoded σ α β ε :=
  { r with out := out ++ r.out }

@[simp] theorem Decoded.after_state (out : List β) (r : Decoded σ α β ε) :
    (r.after out).state = r.state := rfl
@[simp] theorem Decoded.after_rest (out : List β) (r : Decoded σ α β ε) :
    (r.after out).rest = r.rest := rfl
@[simp] theorem Decoded.after_out (out : List β) (r : Decoded σ α β ε) :
    (r.after out).out = out ++ r.out := rfl
@[simp] theorem Decoded.after_fault (out : List β) (r : Decoded σ α β ε) :
    (r.after out).fault = r.fault := rfl

theorem Decoded.after_mk (state : σ) (rest : List α) (out out' : List β) (fault : Option ε) :
    (⟨state, rest, out, fault⟩ : Decoded σ α β ε).after out' =
      ⟨state, rest, out' ++ out, fault⟩ := rfl

theorem Decoded.after_after (as bs : List β) (r : Decoded σ α β ε) :
    (r.after bs).after as = r.after (as ++ bs) := by
  simp [Decoded.after]

namespace FrameDecoder

/-- All frames of the buffer, up to the first fault. -/
def run (c : FrameDecoder σ α β ε) (s : σ) (buf : List α) : Decoded σ α β ε :=
  match _h : c.inspect s buf with
  | .wait s' => ⟨s', buf, [], none⟩
  | .fault s' rest e => ⟨s', rest, [], some e⟩
  | .frame s' n out => (run c s' (buf.drop n)).after out
termination_by buf.length
decreasing_by
  have hfit := c.frame_fits _h
  rw [List.length_drop]
  omega

variable {c : FrameDecoder σ α β ε} {s s' : σ} {buf rest : List α} {n : Nat} {out : List β}
  {e : ε}

theorem run_wait (h : c.inspect s buf = .wait s') : c.run s buf = ⟨s', buf, [], none⟩ := by
  rw [run]; split <;> simp_all

theorem run_fault (h : c.inspect s buf = .fault s' rest e) :
    c.run s buf = ⟨s', rest, [], some e⟩ := by
  rw [run]; split <;> simp_all

theorem run_frame (h : c.inspect s buf = .frame s' n out) :
    c.run s buf = (c.run s' (buf.drop n)).after out := by
  rw [run]; split <;> simp_all

theorem run_congr (h : c.inspect s' buf = c.inspect s buf) : c.run s' buf = c.run s buf := by
  cases hs : c.inspect s buf with
  | wait t => rw [run_wait hs, run_wait (h.trans hs)]
  | fault t rest e => rw [run_fault hs, run_fault (h.trans hs)]
  | frame t n out => rw [run_frame hs, run_frame (h.trans hs)]

/-- Without a fault, what is left is not decided. -/
theorem run_settled (c : FrameDecoder σ α β ε) (s : σ) (buf : List α)
    (h : (c.run s buf).fault = none) :
    c.inspect (c.run s buf).state (c.run s buf).rest = .wait (c.run s buf).state := by
  induction s, buf using run.induct c with
  | case1 s buf s' hi =>
    have hw := c.wait_stable hi []
    rw [List.append_nil] at hw
    rw [run_wait hi]
    exact hw.trans hi
  | case2 s buf s' rest e hi => simp [run_fault hi] at h
  | case3 s buf s' n out hi ih =>
    rw [run_frame hi] at h ⊢
    exact ih h

theorem run_append (c : FrameDecoder σ α β ε) (s : σ) (buf more : List α)
    (h : (c.run s buf).fault = none) :
    c.run s (buf ++ more) =
      (c.run (c.run s buf).state ((c.run s buf).rest ++ more)).after (c.run s buf).out := by
  induction s, buf using run.induct c with
  | case1 s buf s' hi =>
    rw [run_wait hi]
    exact (run_congr (c.wait_stable hi more)).symm
  | case2 s buf s' rest e hi => simp [run_fault hi] at h
  | case3 s buf s' n out hi ih =>
    have hfit := c.frame_fits hi
    rw [run_frame hi] at h ⊢
    rw [run_frame (c.frame_stable hi more), List.drop_append_of_le_length hfit.2, ih h,
      Decoded.after_after]
    rfl

/-- A fault is there with any continuation, after the same output. -/
theorem run_fault_append (c : FrameDecoder σ α β ε) (s : σ) (buf more : List α)
    (h : (c.run s buf).fault = some e) :
    (c.run s (buf ++ more)).fault = some e ∧
      (c.run s (buf ++ more)).out = (c.run s buf).out := by
  induction s, buf using run.induct c with
  | case1 s buf s' hi => simp [run_wait hi] at h
  | case2 s buf s' rest e' hi =>
    obtain ⟨rest',hmore⟩ := c.fault_stable hi more
    rw [run_fault hi] at h ⊢
    rw [run_fault hmore]
    exact ⟨h, rfl⟩
  | case3 s buf s' n out hi ih =>
    have hfit := c.frame_fits hi
    rw [run_frame hi] at h ⊢
    rw [run_frame (c.frame_stable hi more), List.drop_append_of_le_length hfit.2]
    exact ⟨(ih h).1, congrArg (out ++ ·) (ih h).2⟩

/-! ## One piece after another -/

/-- Each piece behind what is pending, up to the first fault. -/
def feed (c : FrameDecoder σ α β ε) (s : σ) (pending : List α) :
    List (List α) → Decoded σ α β ε
  | [] => ⟨s, pending, [], none⟩
  | piece :: pieces =>
    let r := c.run s (pending ++ piece)
    match r.fault with
    | some _ => r
    | none => (feed c r.state r.rest pieces).after r.out

/-- However the input is cut, the output and the fault are those of the whole; and so is
the state, when there is no fault. -/
theorem feed_flatten (c : FrameDecoder σ α β ε) (s : σ) (pending : List α)
    (hs : c.inspect s pending = .wait s) (pieces : List (List α)) :
    (c.feed s pending pieces).fault = (c.run s (pending ++ pieces.flatten)).fault ∧
    (c.feed s pending pieces).out = (c.run s (pending ++ pieces.flatten)).out ∧
    ((c.feed s pending pieces).fault = none →
      c.feed s pending pieces = c.run s (pending ++ pieces.flatten)) := by
  induction pieces generalizing s pending with
  | nil => simp [feed, run_wait hs]
  | cons piece pieces ih =>
    rw [List.flatten_cons, ← List.append_assoc]
    cases hf : (c.run s (pending ++ piece)).fault with
    | some e =>
      have happ := c.run_fault_append s (pending ++ piece) pieces.flatten hf
      have hfeed : c.feed s pending (piece :: pieces) = c.run s (pending ++ piece) := by
        simp only [feed, hf]
      rw [hfeed, hf]
      exact ⟨happ.1.symm, happ.2.symm, nofun⟩
    | none =>
      have hset := c.run_settled s (pending ++ piece) hf
      have happ := c.run_append s (pending ++ piece) pieces.flatten hf
      have hfeed : c.feed s pending (piece :: pieces) =
          (c.feed (c.run s (pending ++ piece)).state (c.run s (pending ++ piece)).rest
            pieces).after (c.run s (pending ++ piece)).out := by
        simp only [feed, hf]
      obtain ⟨h₁,h₂,h₃⟩ := ih _ _ hset
      rw [hfeed, happ]
      refine ⟨h₁, congrArg (_ ++ ·) h₂, fun hnone => ?_⟩
      rw [h₃ hnone]

/-! ## Packed frames -/

/-- Frames packed one after another, the packer's state handed on. -/
def packAll (pack : τ → ι → List α × τ) (t : τ) : List ι → List α × τ
  | [] => ([], t)
  | i :: is =>
    let r := pack t i
    let r' := packAll pack r.2 is
    (r.1 ++ r'.1, r'.2)

theorem packAll_append (pack : τ → ι → List α × τ) (t : τ) (is js : List ι) :
    packAll pack t (is ++ js) =
      ((packAll pack t is).1 ++ (packAll pack (packAll pack t is).2 js).1,
        (packAll pack (packAll pack t is).2 js).2) := by
  induction is generalizing t with
  | nil => rfl
  | cons i is ih => simp only [List.cons_append, packAll, ih, List.append_assoc]

theorem forall_packAll {P : α → Prop} {pack : τ → ι → List α × τ} {is : List ι}
    (h : ∀ i ∈ is, ∀ t, ∀ a ∈ (pack t i).1, P a) (t : τ) : ∀ a ∈ (packAll pack t is).1, P a := by
  induction is generalizing t with
  | nil => exact fun a ha => (List.not_mem_nil ha).elim
  | cons i is ih =>
    intro a ha
    cases List.mem_append.mp ha with
    | inl hfirst => exact h i List.mem_cons_self t a hfirst
    | inr hrest => exact ih (fun j hj => h j (List.mem_cons_of_mem _ hj)) _ a hrest

/-- What the frames are to be read as. -/
def readAll (pack : τ → ι → List α × τ) (read : τ → ι → List β) (t : τ) : List ι → List β
  | [] => []
  | i :: is => read t i ++ readAll pack read (pack t i).2 is

/-- A decoder in step with a packer reads every frame. The last frame may be left
undecided if nothing is read from it. -/
theorem run_packed (c : FrameDecoder σ α β ε) {pack : τ → ι → List α × τ}
    {read : τ → ι → List β} {R : τ → σ → Prop} (hnil : ∀ t s, R t s → c.inspect s [] = .wait s)
    {items : List ι} (hpos : ∀ t, ∀ i ∈ items, (pack t i).1 ≠ [])
    (hstep : ∀ t s, ∀ i ∈ items, ∀ rest, R t s →
      (∃ s', c.inspect s ((pack t i).1 ++ rest) = .frame s' (pack t i).1.length (read t i) ∧
        R (pack t i).2 s') ∨
      (rest = [] ∧ read t i = [] ∧ ∃ s', c.inspect s (pack t i).1 = .wait s'))
    (t : τ) (s : σ) (h : R t s) :
    (c.run s (packAll pack t items).1).fault = none ∧
      (c.run s (packAll pack t items).1).out = readAll pack read t items := by
  induction items generalizing t s with
  | nil =>
    rw [packAll, run_wait (hnil t s h)]
    exact ⟨rfl, rfl⟩
  | cons i is ih =>
    simp only [packAll, readAll]
    rcases hstep t s i List.mem_cons_self (packAll pack (pack t i).2 is).1 h with
      ⟨s',hframe,hR⟩ | ⟨hrest,hread,s',hw⟩
    · rw [run_frame hframe, List.drop_left]
      obtain ⟨h₁,h₂⟩ := ih (fun t j hj => hpos t j (List.mem_cons_of_mem i hj))
        (fun t s j hj => hstep t s j (List.mem_cons_of_mem i hj)) _ _ hR
      exact ⟨h₁, congrArg (read t i ++ ·) h₂⟩
    · cases is with
      | nil =>
        rw [packAll, List.append_nil, run_wait hw, hread]
        exact ⟨rfl, rfl⟩
      | cons j js =>
        rw [packAll] at hrest
        exact absurd (List.append_eq_nil_iff.mp hrest).1
          (hpos _ j (List.mem_cons_of_mem i List.mem_cons_self))

/-- Frames that carry their items as they are. -/
theorem readAll_self (pack : τ → List β → List α × τ) (t : τ) (items : List (List β)) :
    readAll pack (fun _ item => item) t items = items.flatten := by
  induction items generalizing t with
  | nil => rfl
  | cons item items ih => rw [readAll, ih, List.flatten_cons]

/-! ## Where the output comes from -/

/-- Frames that pass `Checked` one after another, and what is read from them. -/
inductive Accepts (Checked : κ → List α → List β → κ → Prop) :
    κ → List (List α) → List β → κ → Prop where
  | nil (k) : Accepts Checked k [] [] k
  | cons {k k' k'' frame frames out outs} : Checked k frame out k' →
      Accepts Checked k' frames outs k'' →
      Accepts Checked k (frame :: frames) (out ++ outs) k''

theorem Accepts.trans {Checked : κ → List α → List β → κ → Prop} {k k' k'' : κ}
    {fs gs : List (List α)} {as bs : List β} (h : Accepts Checked k fs as k')
    (h' : Accepts Checked k' gs bs k'') : Accepts Checked k (fs ++ gs) (as ++ bs) k'' := by
  induction h with
  | nil => exact h'
  | cons hc _ ih =>
    rw [List.append_assoc]
    exact .cons hc (ih h')

/-- `Checked` is what a frame has to pass, in terms of the part `key` of the state that
only frames change. -/
structure Checks (c : FrameDecoder σ α β ε) (key : σ → κ)
    (Checked : κ → List α → List β → κ → Prop) : Prop where
  frame : ∀ {s buf s' n out}, c.inspect s buf = .frame s' n out →
    Checked (key s) (buf.take n) out (key s')
  wait : ∀ {s buf s'}, c.inspect s buf = .wait s' → key s' = key s

/-- Everything put out belongs to checked frames at the front of the buffer. -/
theorem Checks.run {key : σ → κ} {Checked : κ → List α → List β → κ → Prop}
    (hc : c.Checks key Checked) (s : σ) (buf : List α) :
    ∃ frames k, Accepts Checked (key s) frames (c.run s buf).out k ∧
      ((c.run s buf).fault = none → key (c.run s buf).state = k ∧
        frames.flatten ++ (c.run s buf).rest = buf) ∧
      frames.flatten <+: buf := by
  induction s, buf using run.induct c with
  | case1 s buf s' hi =>
    rw [run_wait hi]
    exact ⟨[], _, .nil _, fun _ => ⟨hc.wait hi, rfl⟩, List.nil_prefix⟩
  | case2 s buf s' rest e hi =>
    rw [run_fault hi]
    exact ⟨[], _, .nil _, nofun, List.nil_prefix⟩
  | case3 s buf s' n out hi ih =>
    obtain ⟨frames,k,hacc,hrest,hpre⟩ := ih
    rw [run_frame hi]
    refine ⟨buf.take n :: frames, k, .cons (hc.frame hi) hacc, fun hf => ⟨(hrest hf).1, ?_⟩, ?_⟩
    · rw [List.flatten_cons, List.append_assoc]
      exact (congrArg (buf.take n ++ ·) (hrest hf).2).trans (List.take_append_drop n buf)
    · obtain ⟨tail,htail⟩ := hpre
      refine ⟨tail, ?_⟩
      rw [List.flatten_cons, List.append_assoc, htail, List.take_append_drop]

/-! ## Frames that say their length -/

/-- What a fault in a frame leaves in the buffer. -/
inductive Leftover where
  | nothing
  | behindFrame
  | everything
deriving DecidableEq, Repr

def Leftover.of (n : Nat) (buf : List α) : Leftover → List α
  | .nothing => []
  | .behindFrame => buf.drop n
  | .everything => buf

/-- One turn of a decode loop: with more than `guard` symbols in the buffer the head is
read for the length of the frame, and with the whole frame there, its body. -/
structure Layout (σ α β ε : Type*) where
  guard : σ → Nat
  ready : σ → Bool
  head : σ → List α → Except ε Nat × σ
  body : σ → List α → Except (ε × Leftover) (List β) × σ
  head_pos : ∀ {s front n s'}, head s front = (.ok n, s') → 0 < n
  head_again : ∀ {s front n s'}, ready s = true → head s front = (.ok n, s') →
    guard s' = guard s ∧ ready s' = true ∧ head s' front = (.ok n, s')

namespace Layout

def turn (l : Layout σ α β ε) (s : σ) (buf : List α) : Verdict σ α β ε :=
  if l.guard s < buf.length ∧ l.ready s = true then
    match l.head s (buf.take (l.guard s)) with
    | (.error e, s') => .fault s' [] e
    | (.ok n, s') =>
      if buf.length < n then .wait s'
      else match l.body s' (buf.take n) with
        | (.ok out, s'') => .frame s'' n out
        | (.error (e, left), s'') => .fault s'' (left.of n buf) e
  else .wait s

variable {l : Layout σ α β ε} {s s' s'' : σ} {buf : List α} {n : Nat} {out : List β} {e : ε}

theorem turn_short (h : ¬ (l.guard s < buf.length ∧ l.ready s = true)) :
    l.turn s buf = .wait s := by
  rw [turn, if_neg h]

theorem turn_nil (l : Layout σ α β ε) (s : σ) : l.turn s [] = .wait s :=
  turn_short fun h => absurd h.1 (Nat.not_lt_zero _)

theorem turn_head_fault (h : l.guard s < buf.length ∧ l.ready s = true)
    (hh : l.head s (buf.take (l.guard s)) = (.error e, s')) : l.turn s buf = .fault s' [] e := by
  rw [turn, if_pos h, hh]

theorem turn_wait (h : l.guard s < buf.length ∧ l.ready s = true)
    (hh : l.head s (buf.take (l.guard s)) = (.ok n, s')) (hn : buf.length < n) :
    l.turn s buf = .wait s' := by
  rw [turn, if_pos h, hh]
  exact if_pos hn

theorem turn_body (h : l.guard s < buf.length ∧ l.ready s = true)
    (hh : l.head s (buf.take (l.guard s)) = (.ok n, s')) (hn : n ≤ buf.length)
    (hb : l.body s' (buf.take n) = (.ok out, s'')) : l.turn s buf = .frame s'' n out := by
  rw [turn, if_pos h, hh]
  simp only [Nat.not_lt.mpr hn, if_false, hb]

theorem turn_body_fault {left : Leftover} (h : l.guard s < buf.length ∧ l.ready s = true)
    (hh : l.head s (buf.take (l.guard s)) = (.ok n, s')) (hn : n ≤ buf.length)
    (hb : l.body s' (buf.take n) = (.error (e, left), s'')) :
    l.turn s buf = .fault s'' (left.of n buf) e := by
  rw [turn, if_pos h, hh]
  simp only [Nat.not_lt.mpr hn, if_false, hb]

/-- Everything a turn can do. -/
theorem turn_cases (l : Layout σ α β ε) (s : σ) (buf : List α) :
    (¬ (l.guard s < buf.length ∧ l.ready s = true) ∧ l.turn s buf = .wait s) ∨
    ((l.guard s < buf.length ∧ l.ready s = true) ∧
      ((∃ e s', l.head s (buf.take (l.guard s)) = (.error e, s') ∧
        l.turn s buf = .fault s' [] e) ∨
      ∃ n s', l.head s (buf.take (l.guard s)) = (.ok n, s') ∧
        ((buf.length < n ∧ l.turn s buf = .wait s') ∨
        (n ≤ buf.length ∧
          ((∃ out s'', l.body s' (buf.take n) = (.ok out, s'') ∧
            l.turn s buf = .frame s'' n out) ∨
          ∃ e left s'', l.body s' (buf.take n) = (.error (e, left), s'') ∧
            l.turn s buf = .fault s'' (left.of n buf) e))))) := by
  by_cases h : l.guard s < buf.length ∧ l.ready s = true
  · refine .inr ⟨h, ?_⟩
    rcases hh : l.head s (buf.take (l.guard s)) with ⟨r,s'⟩
    cases r with
    | error e => exact .inl ⟨e, s', rfl, turn_head_fault h hh⟩
    | ok n =>
      refine .inr ⟨n, s', rfl, ?_⟩
      by_cases hn : buf.length < n
      · exact .inl ⟨hn, turn_wait h hh hn⟩
      · have hle := Nat.not_lt.mp hn
        refine .inr ⟨hle, ?_⟩
        rcases hb : l.body s' (buf.take n) with ⟨r,s''⟩
        cases r with
        | ok out => exact .inl ⟨out, s'', rfl, turn_body h hh hle hb⟩
        | error f => exact .inr ⟨f.1, f.2, s'', rfl, turn_body_fault h hh hle hb⟩
  · exact .inl ⟨h, turn_short h⟩

/-- What follows the buffer does not reach the head. -/
theorem head_append (h : l.guard s < buf.length ∧ l.ready s = true) (more : List α) :
    (l.guard s < (buf ++ more).length ∧ l.ready s = true) ∧
      (buf ++ more).take (l.guard s) = buf.take (l.guard s) := by
  refine ⟨⟨?_, h.2⟩, List.take_append_of_le_length (Nat.le_of_lt h.1)⟩
  rw [List.length_append]
  exact Nat.lt_add_right _ h.1

def decoder (l : Layout σ α β ε) : FrameDecoder σ α β ε where
  inspect := l.turn
  frame_fits := by
    intro s buf s' n out h
    rcases l.turn_cases s buf with ⟨_,ht⟩ | ⟨_,⟨e,t,_,ht⟩ |
      ⟨m,t,hh,⟨_,ht⟩ | ⟨hle,⟨o,t',_,ht⟩ | ⟨e,left,t',_,ht⟩⟩⟩⟩
    all_goals rw [ht] at h
    all_goals cases h
    exact ⟨l.head_pos hh, hle⟩
  frame_stable := by
    intro s buf s' n out h more
    rcases l.turn_cases s buf with ⟨_,ht⟩ | ⟨hg,⟨e,t,_,ht⟩ |
      ⟨m,t,hh,⟨_,ht⟩ | ⟨hle,⟨o,t',hb,ht⟩ | ⟨e,left,t',_,ht⟩⟩⟩⟩
    all_goals rw [ht] at h
    all_goals cases h
    obtain ⟨hg',htake⟩ := head_append hg more
    refine turn_body hg' (htake ▸ hh) ?_ ?_
    · rw [List.length_append]
      exact Nat.le_add_right_of_le hle
    · rw [List.take_append_of_le_length hle]
      exact hb
  fault_stable := by
    intro s buf s' rest e h more
    rcases l.turn_cases s buf with ⟨_,ht⟩ | ⟨hg,⟨e,t,hh,ht⟩ |
      ⟨m,t,hh,⟨_,ht⟩ | ⟨hle,⟨o,t',_,ht⟩ | ⟨e,left,t',hb,ht⟩⟩⟩⟩
    all_goals rw [ht] at h
    all_goals cases h
    · obtain ⟨hg',htake⟩ := head_append hg more
      exact ⟨[], turn_head_fault hg' (htake ▸ hh)⟩
    · obtain ⟨hg',htake⟩ := head_append hg more
      refine ⟨left.of m (buf ++ more), turn_body_fault hg' (htake ▸ hh) ?_ ?_⟩
      · rw [List.length_append]
        exact Nat.le_add_right_of_le hle
      · rw [List.take_append_of_le_length hle]
        exact hb
  wait_stable := by
    intro s buf s' h more
    rcases l.turn_cases s buf with ⟨_,ht⟩ | ⟨hg,⟨e,t,_,ht⟩ |
      ⟨m,t,hh,⟨hn,ht⟩ | ⟨hle,⟨o,t',_,ht⟩ | ⟨e,left,t',_,ht⟩⟩⟩⟩
    all_goals rw [ht] at h
    all_goals cases h
    · rfl
    · obtain ⟨hg',htake⟩ := head_append hg more
      obtain ⟨hguard,hready,hagain⟩ := l.head_again hg.2 hh
      rw [← htake] at hh hagain
      rw [turn, turn, if_pos hg', hguard, if_pos ⟨hg'.1, hready⟩, hh, hagain]

@[simp] theorem decoder_inspect : l.decoder.inspect s buf = l.turn s buf := rfl

/-- A checked layout: what the head and the body have let through. -/
theorem checks {l : Layout σ α β ε} {key : σ → κ} {Checked : κ → List α → List β → κ → Prop}
    (hhead : ∀ {s front n s'}, l.head s front = (.ok n, s') → key s' = key s)
    (hbody : ∀ {s} {buf : List α} {n s' out s''}, l.guard s < buf.length → n ≤ buf.length →
      l.head s (buf.take (l.guard s)) = (.ok n, s') → l.body s' (buf.take n) = (.ok out, s'') →
      Checked (key s) (buf.take n) out (key s'')) : l.decoder.Checks key Checked where
  frame := by
    intro s buf s' n out h
    rcases l.turn_cases s buf with ⟨_,ht⟩ | ⟨hg,⟨e,t,_,ht⟩ |
      ⟨m,t,hh,⟨_,ht⟩ | ⟨hle,⟨o,t',hb,ht⟩ | ⟨e,left,t',_,ht⟩⟩⟩⟩
    all_goals rw [decoder_inspect, ht] at h
    all_goals cases h
    exact hbody hg.1 hle hh hb
  wait := by
    intro s buf s' h
    rcases l.turn_cases s buf with ⟨_,ht⟩ | ⟨_,⟨e,t,_,ht⟩ |
      ⟨m,t,hh,⟨_,ht⟩ | ⟨_,⟨o,t',_,ht⟩ | ⟨e,left,t',_,ht⟩⟩⟩⟩
    all_goals rw [decoder_inspect, ht] at h
    all_goals cases h
    · rfl
    · exact hhead hh

end Layout

end FrameDecoder
end AtlasKernel.Lib
