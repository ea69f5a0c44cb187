import AtlasKernel.Lib.Bytes
import AtlasKernel.Lib.FrameDecoder
import AtlasKernel.Lib.PollIo

/-! What the SSR stream codecs share. A codec keeps a receive buffer and a flag that turns
its decoder into a pass-through; here the flag is part of the state of the codec, and the
buffer goes next to it. What a packing call draws at random is an argument.
Source: `shadowsocks/ssr.rs`. -/
namespace AtlasKernel.Shadowsocks.Ssr
open AtlasKernel.Lib FrameDecoder
variable {σ κ : Type*}

/-- The draws of one packing call: `rand::random` as a byte or as a word, and the filler of
`push_random_bytes`. -/
structure Draw where
  byte : UInt8
  word : UInt16
  fill : Nat → UInt8

def zeroDraw : Draw := ⟨0, 0, fun _ => 0⟩

/-- The draws of one `encode`: for the split, the auth frame and each data frame; and the
clock. -/
structure Draws where
  head : Draw
  auth : Draw
  data : Nat → Draw
  now : UInt32

def pushRandomBytes (draw : Draw) (size : Nat) : Bytes := (List.range size).map draw.fill

@[simp] theorem pushRandomBytes_length (draw : Draw) (size : Nat) :
    (pushRandomBytes draw size).length = size := by
  simp [pushRandomBytes]

/-! ## Adler-32 -/

def modAdler : Nat := 65521

def adlerStep (sums : Nat × Nat) (byte : UInt8) : Nat × Nat :=
  let a := (sums.1 + byte.toNat) % modAdler
  (a, (sums.2 + a) % modAdler)

def adler32 (data : Bytes) : Nat :=
  let sums := data.foldl adlerStep (1, 0)
  sums.2 <<< 16 ||| sums.1

def byteSum : Bytes → Nat
  | [] => 0
  | b :: bs => b.toNat + byteSum bs

theorem byteSum_append (as bs : Bytes) : byteSum (as ++ bs) = byteSum as + byteSum bs := by
  induction as with
  | nil => exact (Nat.zero_add _).symm
  | cons a as ih =>
    rw [List.cons_append, byteSum, byteSum, ih]
    exact (Nat.add_assoc ..).symm

theorem adlerStep_lt (data : Bytes) {sums : Nat × Nat} (h : sums.1 < modAdler)
    (h' : sums.2 < modAdler) :
    (data.foldl adlerStep sums).1 < modAdler ∧ (data.foldl adlerStep sums).2 < modAdler := by
  induction data generalizing sums with
  | nil => exact ⟨h, h'⟩
  | cons byte data ih => exact ih (Nat.mod_lt _ (by decide)) (Nat.mod_lt _ (by decide))

theorem adlerStep_low (data : Bytes) (sums : Nat × Nat) :
    (data.foldl adlerStep sums).1 % modAdler = (sums.1 + byteSum data) % modAdler := by
  induction data generalizing sums with
  | nil => rfl
  | cons byte data ih =>
    rw [List.foldl_cons, ih, byteSum, ← Nat.add_assoc]
    exact Nat.mod_add_mod ..

theorem adler32_eq (data : Bytes) :
    adler32 data =
      65536 * (data.foldl adlerStep (1, 0)).2 + (data.foldl adlerStep (1, 0)).1 := by
  have hlow := (@adlerStep_lt data (1, 0) (by decide) (by decide)).1
  have hor := Nat.shiftLeft_add_eq_or_of_lt (i := 16) (Nat.lt_trans hlow (by decide))
    (data.foldl adlerStep (1, 0)).2
  rw [adler32, ← hor, Nat.shiftLeft_eq, Nat.mul_comm]

theorem adler32_lt (data : Bytes) : adler32 data < 4294967296 := by
  have h := @adlerStep_lt data (1, 0) (by decide) (by decide)
  rw [modAdler] at h
  rw [adler32_eq]
  omega

theorem adler32_low (data : Bytes) : adler32 data % 65536 = (1 + byteSum data) % modAdler := by
  have hlow := (@adlerStep_lt data (1, 0) (by decide) (by decide)).1
  have hsum := adlerStep_low data (1, 0)
  rw [Nat.mod_eq_of_lt hlow] at hsum
  rw [adler32_eq, Nat.mul_add_mod, Nat.mod_eq_of_lt (Nat.lt_trans hlow (by decide)), hsum]

/-- A front of a few bytes that are not all zero never leaves the checksum as it is. -/
theorem adler32_front {front : Bytes} (hpos : 0 < byteSum front) (hlt : byteSum front < modAdler)
    (data : Bytes) : adler32 (front ++ data) ≠ adler32 data := by
  intro h
  have hmod : (1 + byteSum (front ++ data)) % modAdler = (1 + byteSum data) % modAdler := by
    rw [← adler32_low, ← adler32_low, h]
  rw [byteSum_append, modAdler] at hmod
  rw [modAdler] at hlt
  omega

theorem byteSum_le (data : Bytes) : byteSum data ≤ 255 * data.length := by
  induction data with
  | nil => exact Nat.le_refl _
  | cons byte data ih =>
    have hbyte := byte.toNat_lt
    rw [byteSum, List.length_cons]
    omega

theorem byteSum_be16 {n : Nat} (hpos : 0 < n) (hlt : n < 65536) : 0 < byteSum (be16 n) := by
  simp only [byteSum, be16, UInt8.toNat_ofNat']
  omega

theorem le32At_last (front : Bytes) {n : Nat} (h : n < 4294967296) :
    le32At (front ++ le32 n) front.length = n := by
  have hfield := le32At_append_right front (le32 n) 0
  rw [Nat.add_zero] at hfield
  have hback := le32At_le32 n []
  rw [List.append_nil] at hback
  rw [hfield, hback, Nat.mod_eq_of_lt h]

/-- A checksum that was taken behind the first bytes of the frame is not that of the frame. -/
theorem checksum_behind_front (front : Bytes) (hpos : 0 < byteSum front)
    (hlen : front.length ≤ 256) (inner : Bytes) :
    let frame := front ++ inner ++ le32 (adler32 inner)
    adler32 (frame.take (frame.length - 4)) ≠ le32At frame (frame.length - 4) := by
  intro frame
  have hcut : frame.length - 4 = (front ++ inner).length := by
    rw [List.length_append, le32_length, Nat.add_sub_cancel]
  have hfield : le32At frame (front ++ inner).length = adler32 inner :=
    le32At_last (front ++ inner) (adler32_lt inner)
  have hsum := byteSum_le front
  rw [hcut, hfield, List.take_left]
  exact adler32_front hpos (by rw [modAdler]; omega) inner

/-! ## Framing helpers -/

/-- Where the payload starts behind the random bytes, with the long length read by `word`. -/
def dataPos (word : Bytes → Nat → Nat) (frame : Bytes) : Nat :=
  if byteAt frame 4 < 255 then (byteAt frame 4).toNat + 5 else word frame 5 + 7

def getSsrHeadSize (data : Bytes) (fallback : Nat) : Nat :=
  match data with
  | [] => fallback
  | first :: _ =>
    if first &&& 7 = 1 then 7
    else if first &&& 7 = 4 then 19
    else if first &&& 7 = 3 ∧ 2 ≤ data.length then 4 + (byteAt data 1).toNat
    else fallback

/-- `payload.chunks(n)` -/
def chunks (n : Nat) (payload : Bytes) : List Bytes :=
  if _h : payload = [] ∨ n = 0 then []
  else payload.take n :: chunks n (payload.drop n)
termination_by payload.length
decreasing_by
  have hpos := List.length_pos_iff.mpr (not_or.mp _h).1
  have hn := Nat.pos_of_ne_zero (not_or.mp _h).2
  rw [List.length_drop]
  omega

theorem chunks_flatten {n : Nat} (hn : n ≠ 0) (payload : Bytes) :
    (chunks n payload).flatten = payload := by
  induction payload using chunks.induct n with
  | case1 payload h =>
    rw [chunks, dif_pos h]
    exact (h.resolve_right hn).symm
  | case2 payload h ih =>
    rw [chunks, dif_neg h, List.flatten_cons, ih, List.take_append_drop]

theorem chunks_length {n : Nat} {payload chunk : Bytes} (h : chunk ∈ chunks n payload) :
    0 < chunk.length ∧ chunk.length ≤ n := by
  induction payload using chunks.induct n with
  | case1 payload hp =>
    rw [chunks, dif_pos hp] at h
    exact absurd h List.not_mem_nil
  | case2 payload hp ih =>
    rw [chunks, dif_neg hp] at h
    rcases List.mem_cons.mp h with rfl | h
    · have hpos := List.length_pos_iff.mpr (not_or.mp hp).1
      have hn := Nat.pos_of_ne_zero (not_or.mp hp).2
      rw [List.length_take]
      omega
    · exact ih h

theorem mem_chunksAll {n : Nat} {payloads : List Bytes} {chunk : Bytes}
    (h : chunk ∈ payloads.flatMap (chunks n)) : 0 < chunk.length ∧ chunk.length ≤ n := by
  obtain ⟨payload,_,hchunk⟩ := List.mem_flatMap.mp h
  exact chunks_length hchunk

theorem chunksAll_flatten {n : Nat} (hn : n ≠ 0) (payloads : List Bytes) :
    (payloads.flatMap (chunks n)).flatten = payloads.flatten := by
  induction payloads with
  | nil => rfl
  | cons payload payloads ih =>
    rw [List.flatMap_cons, List.flatten_append, chunks_flatten hn, ih, List.flatten_cons]

/-! ## Decoders -/

structure SsrDecoder (σ : Type*) where
  frames : FrameDecoder σ UInt8 UInt8 IoError
  rawRecv : σ → Bool
  raw_wait : ∀ {s buf s'}, frames.inspect s buf = .wait s' → rawRecv s' = rawRecv s
  raw_frame : ∀ {s buf s' n out}, frames.inspect s buf = .frame s' n out → rawRecv s' = rawRecv s

/-- A codec given by its layout, in which nothing but a fault changes the flag. -/
def SsrDecoder.ofLayout (l : Layout σ UInt8 UInt8 IoError) (rawRecv : σ → Bool)
    (hhead : ∀ {s front n s'}, l.head s front = (.ok n, s') → rawRecv s' = rawRecv s)
    (hbody : ∀ {s frame out s'}, l.body s frame = (.ok out, s') → rawRecv s' = rawRecv s) :
    SsrDecoder σ where
  frames := l.decoder
  rawRecv := rawRecv
  raw_wait := by
    intro s buf s' h
    rcases l.turn_cases s buf with ⟨_,ht⟩ | ⟨_,⟨e,t,_,ht⟩ |
      ⟨m,t,hh,⟨_,ht⟩ | ⟨_,⟨o,t',_,ht⟩ | ⟨e,left,t',_,ht⟩⟩⟩⟩
    all_goals rw [Layout.decoder_inspect, ht] at h
    all_goals cases h
    · rfl
    · exact hhead hh
  raw_frame := by
    intro s buf s' n out h
    rcases l.turn_cases s buf with ⟨_,ht⟩ | ⟨_,⟨e,t,_,ht⟩ |
      ⟨m,t,hh,⟨_,ht⟩ | ⟨_,⟨o,t',hb,ht⟩ | ⟨e,left,t',_,ht⟩⟩⟩⟩
    all_goals rw [Layout.decoder_inspect, ht] at h
    all_goals cases h
    exact (hbody hb).trans (hhead hh)

theorem SsrDecoder.ofLayout_inspect {l : Layout σ UInt8 UInt8 IoError} {rawRecv : σ → Bool}
    {hhead hbody} (s : σ) (buf : Bytes) :
    (SsrDecoder.ofLayout l rawRecv hhead hbody).frames.inspect s buf = l.turn s buf := rfl

namespace SsrDecoder
variable (c : SsrDecoder σ)

/-- `decode(payload, output)`: what is appended to `output`, and the error if there is one. -/
def decode (s : σ) (recvBuffer payload : Bytes) : Decoded σ UInt8 UInt8 IoError :=
  if c.rawRecv s = true then ⟨s, recvBuffer, payload, none⟩
  else c.frames.run s (recvBuffer ++ payload)

/-- The answers to one call after another. -/
def calls (s : σ) (recvBuffer : Bytes) : List Bytes → List (Bytes × Option IoError)
  | [] => []
  | payload :: payloads =>
    let r := c.decode s recvBuffer payload
    (r.out, r.fault) :: calls r.state r.rest payloads

/-- State and buffer after the calls. -/
def after (s : σ) (recvBuffer : Bytes) : List Bytes → σ × Bytes
  | [] => (s, recvBuffer)
  | payload :: payloads =>
    let r := c.decode s recvBuffer payload
    after r.state r.rest payloads

/-- No call fails, and together they put out `output`. -/
def Decodes (s : σ) (recvBuffer : Bytes) (pieces : List Bytes) (output : Bytes) : Prop :=
  (∀ r ∈ c.calls s recvBuffer pieces, r.2 = none) ∧
    ((c.calls s recvBuffer pieces).map Prod.fst).flatten = output

variable {c} {s : σ} {buf : Bytes}

theorem raw_run (s : σ) (buf : Bytes) (h : (c.frames.run s buf).fault = none) :
    c.rawRecv (c.frames.run s buf).state = c.rawRecv s := by
  induction s, buf using FrameDecoder.run.induct c.frames with
  | case1 s buf s' hi =>
    rw [run_wait hi]
    exact c.raw_wait hi
  | case2 s buf s' rest e hi => simp [run_fault hi] at h
  | case3 s buf s' n out hi ih =>
    rw [run_frame hi] at h ⊢
    exact (ih h).trans (c.raw_frame hi)

theorem decode_raw (h : c.rawRecv s = true) (payload : Bytes) :
    c.decode s buf payload = ⟨s, buf, payload, none⟩ := by
  rw [decode, if_pos h]

theorem decode_framed (h : c.rawRecv s = false) (payload : Bytes) :
    c.decode s buf payload = c.frames.run s (buf ++ payload) := by
  rw [decode, if_neg (by rw [h]; exact Bool.false_ne_true)]

/-- While nothing fails, calling is feeding. -/
theorem calls_feed (buf : Bytes) (hraw : c.rawRecv s = false) (pieces : List Bytes) :
    ((∀ r ∈ c.calls s buf pieces, r.2 = none) ↔ (c.frames.feed s buf pieces).fault = none) ∧
    ((c.frames.feed s buf pieces).fault = none →
      ((c.calls s buf pieces).map Prod.fst).flatten = (c.frames.feed s buf pieces).out) := by
  induction pieces generalizing s buf with
  | nil => simp [calls, feed]
  | cons piece pieces ih =>
    simp only [calls, feed, decode_framed hraw, List.forall_mem_cons, List.map_cons,
      List.flatten_cons]
    cases hf : (c.frames.run s (buf ++ piece)).fault with
    | some e => simp [hf]
    | none =>
      obtain ⟨h₁,h₂⟩ := @ih _ (c.frames.run s (buf ++ piece)).rest
        ((raw_run s (buf ++ piece) hf).trans hraw)
      exact ⟨⟨fun h => h₁.mp h.2, fun h => ⟨rfl, h₁.mpr h⟩⟩,
        fun h => congrArg (_ ++ ·) (h₂ h)⟩

/-- However a stream is cut, decoding it is one run over the whole of it. -/
theorem decodes_iff (hraw : c.rawRecv s = false) (hs : c.frames.inspect s buf = .wait s)
    (pieces : List Bytes) (output : Bytes) :
    c.Decodes s buf pieces output ↔
      (c.frames.run s (buf ++ pieces.flatten)).fault = none ∧
        (c.frames.run s (buf ++ pieces.flatten)).out = output := by
  obtain ⟨h₁,h₂⟩ := calls_feed buf hraw pieces
  obtain ⟨hf,ho,_⟩ := c.frames.feed_flatten s buf hs pieces
  rw [Decodes, h₁, ← hf, ← ho]
  exact and_congr_right fun hnone => by rw [h₂ hnone]

theorem after_feed (hraw : c.rawRecv s = false) (pieces : List Bytes)
    (h : (c.frames.feed s buf pieces).fault = none) :
    c.after s buf pieces = ((c.frames.feed s buf pieces).state, (c.frames.feed s buf pieces).rest) := by
  induction pieces generalizing s buf with
  | nil => rfl
  | cons piece pieces ih =>
    simp only [after, feed, decode_framed hraw] at h ⊢
    cases hf : (c.frames.run s (buf ++ piece)).fault with
    | some e => simp [hf] at h
    | none =>
      simp only [hf] at h ⊢
      exact ih ((raw_run s (buf ++ piece) hf).trans hraw) h

/-- Coming back to an incomplete frame leaves no trace: the state after the calls is the
one after a single call. -/
theorem after_eq (hraw : c.rawRecv s = false) (hs : c.frames.inspect s buf = .wait s)
    (pieces : List Bytes) (h : (c.frames.run s (buf ++ pieces.flatten)).fault = none) :
    c.after s buf pieces = ((c.frames.run s (buf ++ pieces.flatten)).state,
      (c.frames.run s (buf ++ pieces.flatten)).rest) := by
  obtain ⟨hf,_,heq⟩ := c.frames.feed_flatten s buf hs pieces
  rw [after_feed hraw pieces (hf.trans h), heq (hf.trans h)]

/-! ## After a failed call -/

/-- A failed call is followed by calls that put out nothing. -/
def FailsClosed (answers : List (Bytes × Option IoError)) : Prop :=
  answers.Pairwise fun a b => a.2 ≠ none → b.1 = []

/-- The output is that of checked frames at the front of the input. -/
def OnlyChecked (Checked : κ → Bytes → Bytes → κ → Prop) (k : κ) (input output : Bytes) : Prop :=
  ∃ frames k', Accepts Checked k frames output k' ∧ frames.flatten <+: input

/-- A call that cannot put anything out: nothing is passed through, and no checked frame
is at the front of the buffer. -/
def Shut (c : SsrDecoder σ) (key : σ → κ) (Checked : κ → Bytes → Bytes → κ → Prop) (s : σ)
    (recvBuffer payload : Bytes) : Prop :=
  if c.rawRecv s = true then payload = []
  else ∀ n out k', ¬ Checked (key s) ((recvBuffer ++ payload).take n) out k'

/-- Every call after the first failed one is shut. -/
def ShutAfterFailure (c : SsrDecoder σ) (key : σ → κ) (Checked : κ → Bytes → Bytes → κ → Prop)
    (failed : Bool) (s : σ) (recvBuffer : Bytes) : List Bytes → Prop
  | [] => True
  | payload :: payloads =>
    (failed = true → c.Shut key Checked s recvBuffer payload) ∧
      ShutAfterFailure c key Checked (failed || (c.decode s recvBuffer payload).fault.isSome)
        (c.decode s recvBuffer payload).state (c.decode s recvBuffer payload).rest payloads

variable {key : σ → κ} {Checked : κ → Bytes → Bytes → κ → Prop}

theorem Shut.silent (hc : c.frames.Checks key Checked) {payload : Bytes}
    (h : c.Shut key Checked s buf payload) : (c.decode s buf payload).out = [] := by
  rw [Shut] at h
  split at h
  case isTrue hraw => rw [decode_raw hraw, h]
  case isFalse hraw =>
    rw [decode_framed (Bool.not_eq_true _ ▸ hraw)]
    cases hi : c.frames.inspect s (buf ++ payload) with
    | wait s' => rw [run_wait hi]
    | fault s' rest e => rw [run_fault hi]
    | frame s' n out => exact absurd (hc.frame hi) (h _ _ _)

theorem calls_shut (hc : c.frames.Checks key Checked) (payloads : List Bytes)
    (h : c.ShutAfterFailure key Checked true s buf payloads) :
    ∀ r ∈ c.calls s buf payloads, r.1 = [] := by
  induction payloads generalizing s buf with
  | nil => exact fun r hr => absurd hr List.not_mem_nil
  | cons payload payloads ih =>
    rw [calls, List.forall_mem_cons]
    exact ⟨(h.1 rfl).silent hc, ih h.2⟩

/-- A decoder that is not passing through, and is shut after a failure, fails closed. -/
theorem calls_failClosed (hc : c.frames.Checks key Checked) (payloads : List Bytes)
    (hraw : c.rawRecv s = false) (h : c.ShutAfterFailure key Checked false s buf payloads) :
    FailsClosed (c.calls s buf payloads) ∧
      OnlyChecked Checked (key s) (buf ++ payloads.flatten)
        ((c.calls s buf payloads).map Prod.fst).flatten := by
  induction payloads generalizing s buf with
  | nil => exact ⟨.nil, [], key s, .nil _, List.nil_prefix⟩
  | cons payload payloads ih =>
    obtain ⟨_,hnext⟩ := h
    rw [decode_framed hraw] at hnext
    obtain ⟨frames,k,hacc,hkey,hpre⟩ := hc.run s (buf ++ payload)
    rw [calls, decode_framed hraw, List.flatten_cons, ← List.append_assoc, List.map_cons,
      List.flatten_cons]
    cases hf : (c.frames.run s (buf ++ payload)).fault with
    | some e =>
      rw [hf] at hnext
      have hsilent := calls_shut hc payloads hnext
      have hnone : ((c.calls (c.frames.run s (buf ++ payload)).state
          (c.frames.run s (buf ++ payload)).rest payloads).map Prod.fst).flatten = [] := by
        rw [List.flatten_eq_nil_iff]
        intro out hout
        obtain ⟨r,hr,rfl⟩ := List.mem_map.mp hout
        exact hsilent r hr
      refine ⟨.cons (fun r hr _ => hsilent r hr) ?_, frames, k, ?_, hpre.trans (List.prefix_append ..)⟩
      · exact List.Pairwise.imp_of_mem (fun _ hb _ _ => hsilent _ hb)
          (List.pairwise_of_forall fun _ _ => trivial)
      · rw [hnone, List.append_nil]
        exact hacc
    | none =>
      rw [hf] at hnext
      obtain ⟨rfl,hrest⟩ := hkey hf
      obtain ⟨hclosed,frames',k',hacc',hpre'⟩ := ih ((raw_run s (buf ++ payload) hf).trans hraw)
        hnext
      refine ⟨.cons (fun _ _ hne => absurd rfl hne) hclosed, frames ++ frames', k',
        hacc.trans hacc', ?_⟩
      rw [← hrest, List.flatten_append, List.append_assoc]
      exact (List.prefix_append_right_inj _).mpr hpre'

end SsrDecoder
end AtlasKernel.Shadowsocks.Ssr
