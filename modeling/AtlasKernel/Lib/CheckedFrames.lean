import AtlasKernel.Lib.FrameDecoder

/-! The loop of a decoder whose turns may panic, for so many turns and no more: a loop that
would go on forever stays unfinished whatever their number. When the turns are those of a
decoder and its frames have a least length, the loop is done. -/
namespace AtlasKernel.Lib
variable {σ α β ε ρ τ : Type*}

/-- How a loop ends within the turns it has. -/
inductive Ending (ρ : Type*) where
  | panicked
  | unfinished
  | done (result : ρ)

def Ending.map (f : ρ → τ) : Ending ρ → Ending τ
  | .panicked => .panicked
  | .unfinished => .unfinished
  | .done result => .done (f result)

/-- `turn?` is `none` where it panics; taking a frame out of the buffer panics if the frame is
longer than the buffer. -/
def checkedLoop (turn? : σ → List α → Option (Verdict σ α β ε)) :
    Nat → σ → List α → Ending (Decoded σ α β ε)
  | 0, _, _ => .unfinished
  | turns + 1, s, buf =>
    match turn? s buf with
    | none => .panicked
    | some (.wait s') => .done ⟨s', buf, [], none⟩
    | some (.fault s' rest e) => .done ⟨s', rest, [], some e⟩
    | some (.frame s' n out) =>
      if n ≤ buf.length then (checkedLoop turn? turns s' (buf.drop n)).map (Decoded.after out)
      else .panicked

/-- Every turn is the decoder's, and takes at least `k` symbols if it takes a frame. -/
structure InBounds (turn? : σ → List α → Option (Verdict σ α β ε)) (c : FrameDecoder σ α β ε)
    (k : Nat) : Prop where
  turn : ∀ s buf, turn? s buf = some (c.inspect s buf)
  long : ∀ {s buf s' n out}, c.inspect s buf = .frame s' n out → k ≤ n

variable {turn? : σ → List α → Option (Verdict σ α β ε)} {c : FrameDecoder σ α β ε} {k : Nat}

theorem InBounds.mono (h : InBounds turn? c k) {k' : Nat} (hle : k' ≤ k) : InBounds turn? c k' where
  turn := h.turn
  long hframe := Nat.le_trans hle (h.long hframe)

/-- A turn leaves the loop, or takes `k` symbols and more out of the buffer. -/
theorem InBounds.progress (h : InBounds turn? c k) (s : σ) (buf : List α) :
    (∃ s', turn? s buf = some (.wait s')) ∨ (∃ s' rest e, turn? s buf = some (.fault s' rest e)) ∨
      ∃ s' n out, turn? s buf = some (.frame s' n out) ∧ k ≤ n ∧ n ≤ buf.length := by
  have hturn := h.turn s buf
  cases hverdict : c.inspect s buf with
  | wait s' =>
    rw [hverdict] at hturn
    exact .inl ⟨s',hturn⟩
  | fault s' rest e =>
    rw [hverdict] at hturn
    exact .inr (.inl ⟨s',rest,e,hturn⟩)
  | frame s' n out =>
    rw [hverdict] at hturn
    exact .inr (.inr ⟨s',n,out,hturn,h.long hverdict,(c.frame_fits hverdict).2⟩)

/-- With a turn for every `k` symbols, and one more, the loop is done. -/
theorem InBounds.loop (h : InBounds turn? c k) {turns : Nat} {s : σ} {buf : List α}
    (hturns : buf.length < k * turns) : checkedLoop turn? turns s buf = .done (c.run s buf) := by
  induction turns generalizing s buf with
  | zero => exact absurd hturns (Nat.not_lt_zero _)
  | succ turns ih =>
    rw [checkedLoop, h.turn]
    cases hverdict : c.inspect s buf with
    | wait s' => rw [FrameDecoder.run_wait hverdict]
    | fault s' rest e => rw [FrameDecoder.run_fault hverdict]
    | frame s' n out =>
      have hlong := h.long hverdict
      have hfits := (c.frame_fits hverdict).2
      have hless : (buf.drop n).length < k * turns := by
        rw [List.length_drop]
        rw [Nat.mul_succ] at hturns
        omega
      rw [FrameDecoder.run_frame hverdict]
      simp only [if_pos hfits, ih hless, Ending.map]

/-- A turn with the whole frame there is that of its body. -/
theorem Layout.turn_whole {l : FrameDecoder.Layout σ α β ε} {s s' : σ} {buf : List α} {n : Nat}
    (h : l.guard s < buf.length ∧ l.ready s = true)
    (hhead : l.head s (buf.take (l.guard s)) = (.ok n, s')) (hn : n ≤ buf.length) :
    l.turn s buf = match l.body s' (buf.take n) with
      | (.ok out, s'') => .frame s'' n out
      | (.error (e, left), s'') => .fault s'' (left.of n buf) e := by
  rw [FrameDecoder.Layout.turn, if_pos h, hhead]
  exact if_neg (Nat.not_lt.mpr hn)

/-- A turn whose length is known waits for the rest of the frame, or is that of its body. -/
theorem Layout.turn_known {l : FrameDecoder.Layout σ α β ε} {s s' : σ} {buf : List α} {n : Nat}
    {whole : Option (Verdict σ α β ε)} (h : l.guard s < buf.length ∧ l.ready s = true)
    (hhead : l.head s (buf.take (l.guard s)) = (.ok n, s'))
    (hwhole : n ≤ buf.length → whole = some (match l.body s' (buf.take n) with
      | (.ok out, s'') => .frame s'' n out
      | (.error (e, left), s'') => .fault s'' (left.of n buf) e)) :
    (if buf.length < n then some (.wait s') else whole) = some (l.turn s buf) := by
  by_cases hwait : buf.length < n
  · rw [if_pos hwait, FrameDecoder.Layout.turn_wait h hhead hwait]
  · have hn : n ≤ buf.length := Nat.not_lt.mp hwait
    rw [if_neg hwait, hwhole hn, Layout.turn_whole h hhead hn]

/-- The turns of a layout are as long as what its head asks for. -/
theorem Layout.long {l : FrameDecoder.Layout σ α β ε}
    (h : ∀ {s front n s'}, l.head s front = (.ok n, s') → k ≤ n) {s s' : σ} {buf : List α} {n : Nat}
    {out : List β} (hframe : l.decoder.inspect s buf = .frame s' n out) : k ≤ n := by
  obtain ⟨_,hturn⟩ | ⟨_,⟨_,_,_,hturn⟩ | ⟨m,t,hhead,⟨_,hturn⟩ | ⟨_,⟨_,_,_,hturn⟩ | ⟨_,_,_,_,hturn⟩⟩⟩⟩ :=
    l.turn_cases s buf
  all_goals rw [FrameDecoder.Layout.decoder_inspect, hturn] at hframe
  all_goals cases hframe
  exact h hhead

end AtlasKernel.Lib
