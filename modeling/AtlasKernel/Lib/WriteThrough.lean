import AtlasKernel.Lib.Session

/-! A stream that writes through another one. The loop below hands over the rest of a buffer
until all of it is taken; whatever the inner stream is, its side of the loop is a session of a
caller that repeats itself as it should. -/
namespace AtlasKernel.Lib
variable {α σ : Type*}

def Caller.idle : Caller α → Prop
  | .fresh | .acked => True
  | .retrying _ | .failed .. => False

theorem Caller.inFlight_of_idle {c : Caller α} (h : c.idle) : c.inFlight = [] := by
  cases c with
  | fresh | acked => rfl
  | retrying b | failed b e => exact h.elim

theorem Caller.mayWrite_of_idle {c : Caller α} (h : c.idle) (buf : List α) : c.mayWrite buf := by
  cases c with
  | fresh | acked => trivial
  | retrying b | failed b e => exact h.elim

/-- A run under one condition on the calls is a run under another that it brings with it. -/
theorem Writes.mono {poll : σ → List α → Poll (IoResult Nat) × σ} {Cond Cond' : σ → List α → Prop}
    {st₀ : σ} {s : WriteSession σ α} (h : Writes poll Cond st₀ s)
    (himp : ∀ st buf, Cond st buf → Cond' st buf) : Writes poll Cond' st₀ s := by
  induction h with
  | start => exact .start
  | write buf _ hmay hcond ih => exact .write buf ih hmay (himp _ _ hcond)

theorem Writes.fresh {poll : σ → List α → Poll (IoResult Nat) × σ} {Cond : σ → List α → Prop}
    {st₀ : σ} {s : WriteSession σ α} (h : Writes poll Cond st₀ s) (hfresh : s.caller = .fresh) :
    s.accepted = [] := by
  cases h with
  | start => rfl
  | @write s buf _ _ _ =>
    rw [WriteSession.write] at hfresh
    generalize poll s.stream buf = answer at hfresh
    obtain ⟨r,st⟩ := answer
    cases r with
    | pending => cases hfresh
    | ready r => cases r <;> cases hfresh

/-- A call takes no more than it is handed. -/
structure ByteWriter (σ α : Type*) where
  poll : σ → List α → Poll (IoResult Nat) × σ
  bounded : ∀ {s buf n s'}, poll s buf = (.ready (.ok n), s') → n ≤ buf.length

def Sink.writer : ByteWriter (Sink α) α where
  poll := Sink.pollWrite
  bounded := by
    intro s buf n s' h
    have htaken := (pollWrite_sent_of h).2
    exact htaken

namespace ByteWriter

/-- `while offset < data.len() { offset += poll_write(&data[offset..])? }`, where to take nothing
is an error. -/
def writeThrough (w : ByteWriter σ α) (data : List α) (offset : Nat) (s : σ) :
    WriteExit × Nat × σ :=
  if offset < data.length then
    match w.poll s (data.drop offset) with
    | (.pending, s') => (.pending, offset, s')
    | (.ready (.error e), s') => (.failed e, offset, s')
    | (.ready (.ok 0), s') => (.zero, offset, s')
    | (.ready (.ok (n+1)), s') => writeThrough w data (offset+(n+1)) s'
  else (.done, offset, s)
termination_by data.length - offset

/-- The calls the loop makes, each with the state it finds. -/
def writeCalls (w : ByteWriter σ α) (data : List α) (offset : Nat) (s : σ) : List (σ × List α) :=
  if offset < data.length then
    (s, data.drop offset) ::
      match w.poll s (data.drop offset) with
      | (.ready (.ok (n+1)), s') => writeCalls w data (offset+(n+1)) s'
      | _ => []
  else []
termination_by data.length - offset

/-- Where a loop over `data` leaves the inner caller: the bytes before `offset` are taken, and
after a stop the rest is what has to be repeated. -/
structure Through (data : List α) (exit : WriteExit) (offset : Nat) (whole : List α)
    (t : WriteSession σ α) : Prop where
  bound : offset ≤ data.length
  taken : t.accepted.flatten ++ data.drop offset = whole
  done : exit = .done → offset = data.length ∧ t.caller.idle
  pending : exit = .pending → offset < data.length ∧ t.caller = .retrying (data.drop offset)
  zero : exit = .zero → t.caller = .acked
  failed : ∀ e, exit = .failed e → t.caller = .failed (data.drop offset) e

variable {w : ByteWriter σ α} {Cond : σ → List α → Prop} {st₀ : σ}

theorem writeThrough_bound {data : List α} {offset : Nat} (hoff : offset ≤ data.length) (s : σ) :
    (w.writeThrough data offset s).2.1 ≤ data.length := by
  induction offset, s using writeThrough.induct w data with
  | case1 offset s hlt s' hw | case2 offset s hlt e s' hw | case3 offset s hlt s' hw =>
    rw [writeThrough, if_pos hlt, hw]
    exact hoff
  | case4 offset s hlt n s' hw ih =>
    have hn := w.bounded hw
    rw [List.length_drop] at hn
    rw [writeThrough, if_pos hlt, hw]
    exact ih (by omega)
  | case5 offset s hge =>
    rw [writeThrough, if_neg hge]
    exact hoff

/-- The inner side of the loop is a session of a caller that may write what is left. -/
theorem writeThrough_session {data whole : List α} {offset : Nat}
    {t : WriteSession σ α} (h : Writes w.poll Cond st₀ t) (hoff : offset ≤ data.length)
    (htaken : t.accepted.flatten ++ data.drop offset = whole)
    (hmay : offset < data.length → t.caller.mayWrite (data.drop offset))
    (hidle : offset = data.length → t.caller.idle)
    (hcalls : ∀ c ∈ w.writeCalls data offset t.stream, Cond c.1 c.2) :
    ∃ t', Writes w.poll Cond st₀ t' ∧ t'.stream = (w.writeThrough data offset t.stream).2.2 ∧
      Through data (w.writeThrough data offset t.stream).1
        (w.writeThrough data offset t.stream).2.1 whole t' := by
  obtain ⟨s,hs⟩ : ∃ s, s = t.stream := ⟨_,rfl⟩
  rw [← hs] at hcalls ⊢
  induction offset, s using writeThrough.induct w data generalizing t with
  | case1 offset s hlt s' hw =>
    rw [writeCalls, if_pos hlt, hw] at hcalls
    have hwrite := h.write (data.drop offset) (hmay hlt)
      (by rw [← hs]; exact hcalls _ List.mem_cons_self)
    rw [writeThrough, if_pos hlt, hw]
    rw [WriteSession.write, ← hs, hw] at hwrite
    exact ⟨_,hwrite,rfl,hoff,htaken,nofun,fun _ => ⟨hlt,rfl⟩,nofun,nofun⟩
  | case2 offset s hlt e s' hw =>
    rw [writeCalls, if_pos hlt, hw] at hcalls
    have hwrite := h.write (data.drop offset) (hmay hlt)
      (by rw [← hs]; exact hcalls _ List.mem_cons_self)
    rw [writeThrough, if_pos hlt, hw]
    rw [WriteSession.write, ← hs, hw] at hwrite
    refine ⟨_,hwrite,rfl,hoff,htaken,nofun,nofun,nofun,fun e' he => ?_⟩
    cases he
    rfl
  | case3 offset s hlt s' hw =>
    rw [writeCalls, if_pos hlt, hw] at hcalls
    have hwrite := h.write (data.drop offset) (hmay hlt)
      (by rw [← hs]; exact hcalls _ List.mem_cons_self)
    rw [writeThrough, if_pos hlt, hw]
    rw [WriteSession.write, ← hs, hw] at hwrite
    refine ⟨_,hwrite,rfl,hoff,?_,nofun,nofun,fun _ => rfl,nofun⟩
    simpa [WriteSession.settle] using htaken
  | case4 offset s hlt n s' hw ih =>
    rw [writeCalls, if_pos hlt, hw] at hcalls
    obtain ⟨hfirst,hrest⟩ := List.forall_mem_cons.mp hcalls
    have hwrite := h.write (data.drop offset) (hmay hlt) (by rw [← hs]; exact hfirst)
    rw [WriteSession.write, ← hs, hw] at hwrite
    have hn := w.bounded hw
    rw [List.length_drop] at hn
    rw [writeThrough, if_pos hlt, hw]
    refine ih hwrite (by omega) ?_ (fun _ => trivial) (fun _ => trivial) hrest rfl
    simp only [WriteSession.settle, List.flatten_append, List.flatten_singleton, List.append_assoc]
    rw [← List.drop_drop, List.take_append_drop]
    exact htaken
  | case5 offset s hge =>
    rw [writeThrough, if_neg hge]
    have hend : offset = data.length := by omega
    exact ⟨t,h,hs.symm,hoff,htaken,fun _ => ⟨hend,hidle hend⟩,nofun,nofun,nofun⟩

end ByteWriter
end AtlasKernel.Lib
