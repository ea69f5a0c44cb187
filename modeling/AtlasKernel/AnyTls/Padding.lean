import AtlasKernel.AnyTls.Frame
import AtlasKernel.Lib.Text

/-! The padding of AnyTLS packets: the scheme as text, the sizes drawn from it, and the
writer that cuts a packet to these sizes and fills up with WASTE frames.
Source: `adapter/anytls.rs`. -/
namespace AtlasKernel.AnyTls
open AtlasKernel.Lib FrameDecoder

inductive PaddingSize where
  | payload (size : Nat)
  | check
deriving DecidableEq, Repr

abbrev Md5 := Bytes → Vector UInt8 16

structure PaddingFactory where
  md5 : List Char
  stop : UInt32
  entries : List (List PaddingSize)
deriving DecidableEq, Repr

/-- `panicked` stands for a capacity overflow or an index out of bounds. -/
inductive PaddingError where
  | parseInt
  | stopMissing
  | panicked
deriving DecidableEq, Repr

/-- One part of a line; `draw` is what the random generator has in store for it. -/
def parsePaddingSize (draw : Nat) (part : List Char) : Option PaddingSize :=
  if part = ['c'] then some .check
  else
    match splitOnce '-' part with
    | none => none
    | some (min, max) =>
      match parseUnsigned 18446744073709551615 min, parseUnsigned 18446744073709551615 max with
      | some min, some max =>
        if min = 0 ∨ max = 0 then none
        else
          let low := Nat.min min max
          let high := Nat.max min max
          some (.payload (if low = high then low else low + draw % (high - low)))
      | _, _ => none

def parsePaddingSizes (draw : Nat → Nat) (value : List Char) : List PaddingSize :=
  ((value.splitOn ',').map trim).zipIdx.filterMap fun part => parsePaddingSize (draw part.2) part.1

/-- The greatest number of entries a vector can have: `isize::MAX` bytes, each entry a
vector of three words. -/
def maxEntries : Nat := 9223372036854775807 / 24

/-- `entries.resize(index + 1, Vec::new())` when needed, and the new entry. -/
def setEntry (entries : List (List PaddingSize)) (index : Nat) (sizes : List PaddingSize) :
    List (List PaddingSize) :=
  (entries ++ List.replicate (index + 1 - entries.length) []).set index sizes

/-- One line of the scheme, with `stop` and the entries so far. -/
def parseLine (draw : Nat → Nat) (line : List Char) (stop : Option UInt32)
    (entries : List (List PaddingSize)) :
    Except PaddingError (Option UInt32 × List (List PaddingSize)) :=
  match splitOnce '=' (trim line) with
  | none => .ok (stop, entries)
  | some (key, value) =>
    if key = "stop".toList then
      match parseUnsigned 4294967295 value with
      | none => .error .parseInt
      | some stop => .ok (some (UInt32.ofNat stop), entries)
    else
      match parseUnsigned 18446744073709551615 key with
      | none => .ok (stop, entries)
      | some index =>
        if entries.length ≤ index ∧ maxEntries < index + 1 then .error .panicked
        else .ok (stop, setEntry entries index (parsePaddingSizes draw value))

def parseLines (draw : Nat → Nat → Nat) : (i : Nat) → List (List Char) → Option UInt32 →
    List (List PaddingSize) → Except PaddingError (Option UInt32 × List (List PaddingSize))
  | _, [], stop, entries => .ok (stop, entries)
  | i, line :: rest, stop, entries =>
    match parseLine (draw i) line stop entries with
    | .error e => .error e
    | .ok (stop, entries) => parseLines draw (i + 1) rest stop entries

namespace PaddingFactory

def new (md5 : Md5) (draw : Nat → Nat → Nat) (raw : Bytes) : Except PaddingError PaddingFactory :=
  match parseLines draw 0 (lines (fromUtf8Lossy raw)) none (List.replicate 32 []) with
  | .error e => .error e
  | .ok (none, _) => .error .stopMissing
  | .ok (some stop, entries) => .ok ⟨hex (md5 raw).toList, stop, entries⟩

def sizes (padding : PaddingFactory) (packet : UInt32) : List PaddingSize :=
  padding.entries.getD packet.toNat []

end PaddingFactory

def defaultPaddingScheme : String :=
  "stop=8\n0=30-30\n1=100-400\n2=400-500,c,500-1000,c,500-1000,c,500-1000,c,500-1000\n" ++
    "3=9-9,500-1000\n4=500-1000\n5=500-1000\n6=500-1000\n7=500-1000"

@[irreducible] def PaddingFactory.default (md5 : Md5) (draw : Nat → Nat → Nat) :
    Except PaddingError PaddingFactory :=
  PaddingFactory.new md5 draw (utf8 defaultPaddingScheme.toList)

/-! ## Writing -/

/-- The last piece of the data with its filler behind; the length goes through `as u16`. -/
def padBuffer (size : Nat) (buffer : Bytes) : Bytes :=
  let paddingLen := size - (buffer.length + headerLen)
  if 0 < paddingLen then
    buffer ++ (cmdWaste :: (be32 0 ++ (be16 paddingLen ++ List.replicate paddingLen 0)))
  else buffer

/-- The loop over the sizes: what it writes, and the data it leaves or the error it ends
in. -/
def writeSizes : List PaddingSize → Bytes → Bytes × Except String Bytes
  | [], buffer => ([], .ok buffer)
  | .check :: sizes, buffer =>
    if buffer.length = 0 then ([], .ok buffer) else writeSizes sizes buffer
  | .payload size :: sizes, buffer =>
    if size < buffer.length then
      let r := writeSizes sizes (buffer.drop size)
      (buffer.take size ++ r.1, r.2)
    else if 0 < buffer.length then
      let r := writeSizes sizes []
      (padBuffer size buffer ++ r.1, r.2)
    else
      match appendFrame [] cmdWaste 0 (List.replicate size 0) with
      | .error e => ([], .error e)
      | .ok waste =>
        let r := writeSizes sizes []
        (waste ++ r.1, r.2)

/-- What `write_with_padding` uses of the session. -/
structure PaddingState where
  padding : PaddingFactory
  packetCounter : UInt32
deriving DecidableEq, Repr

/-- The sizes the next packet is cut to. -/
def PaddingState.sizes (s : PaddingState) : List PaddingSize :=
  if s.packetCounter < s.padding.stop then s.padding.sizes s.packetCounter else []

/-- `write_with_padding` on a writer that takes everything: what it has written, and the
error it ended in. -/
def writeWithPadding (s : PaddingState) (buffer : Bytes) :
    (Bytes × Except String Unit) × PaddingState :=
  let r := writeSizes s.sizes buffer
  let s' := { s with packetCounter := s.packetCounter + 1 }
  match r.2 with
  | .error e => ((r.1, .error e), s')
  | .ok rest => ((r.1 ++ rest, .ok ()), s')

/-! ## What the sizes make of a packet -/

/-- How much filler goes behind the last piece of `remaining` bytes. -/
def tailPadding : List PaddingSize → (remaining : Nat) → Nat
  | [], _ => 0
  | .check :: sizes, remaining => if remaining = 0 then 0 else tailPadding sizes remaining
  | .payload size :: sizes, remaining =>
    if size < remaining then tailPadding sizes (remaining - size)
    else if 0 < remaining then size - (remaining + headerLen)
    else 0

/-- The WASTE frames that follow once nothing remains. -/
def wasteSizes : List PaddingSize → (remaining : Nat) → List Nat
  | [], _ => []
  | .check :: sizes, remaining => if remaining = 0 then [] else wasteSizes sizes remaining
  | .payload size :: sizes, remaining =>
    if size < remaining then wasteSizes sizes (remaining - size)
    else if 0 < remaining then wasteSizes sizes 0
    else size :: wasteSizes sizes 0

/-- A filler of `n` bytes as it is written, the length taken modulo 65536. -/
def filler (n : Nat) : Bytes :=
  if 0 < n then cmdWaste :: (be32 0 ++ (be16 n ++ List.replicate n 0)) else []

theorem padBuffer_eq (size : Nat) (buffer : Bytes) :
    padBuffer size buffer = buffer ++ filler (size - (buffer.length + headerLen)) := by
  rw [padBuffer, filler]
  split
  · rfl
  · rw [List.append_nil]

theorem tailPadding_zero (sizes : List PaddingSize) : tailPadding sizes 0 = 0 := by
  cases sizes with
  | nil => rfl
  | cons size sizes => cases size <;> simp [tailPadding]

theorem waste_wellFormed (n : Nat) : (Frame.waste n).WellFormed ↔ n ≤ 65535 := by
  rw [Frame.WellFormed, Frame.waste, List.length_replicate]

/-- Nothing is lost or moved: the data, the filler behind it, and the WASTE frames. -/
theorem writeSizes_ok (sizes : List PaddingSize) (buffer : Bytes)
    (h : ∀ n ∈ wasteSizes sizes buffer.length, n ≤ 65535) :
    ∃ rest, (writeSizes sizes buffer).2 = .ok rest ∧
      (writeSizes sizes buffer).1 ++ rest =
        buffer ++ (filler (tailPadding sizes buffer.length) ++
          (wasteSizes sizes buffer.length).flatMap fun n => (Frame.waste n).bytes) := by
  induction sizes generalizing buffer with
  | nil => exact ⟨buffer, rfl, (List.append_nil buffer).symm⟩
  | cons size sizes ih =>
    cases size with
    | check =>
      rw [wasteSizes] at h
      rw [writeSizes, tailPadding, wasteSizes]
      by_cases hnil : buffer.length = 0
      · rw [if_pos hnil, if_pos hnil, if_pos hnil]
        exact ⟨buffer, rfl, (List.append_nil buffer).symm⟩
      · rw [if_neg hnil] at h
        rw [if_neg hnil, if_neg hnil, if_neg hnil]
        exact ih buffer h
    | payload size =>
      rw [wasteSizes] at h
      rw [writeSizes, tailPadding, wasteSizes]
      by_cases hcut : size < buffer.length
      · rw [if_pos hcut] at h
        rw [if_pos hcut, if_pos hcut, if_pos hcut, ← List.length_drop]
        obtain ⟨rest,hok,heq⟩ := ih (buffer.drop size) (by rwa [List.length_drop])
        refine ⟨rest, hok, ?_⟩
        rw [List.append_assoc, heq, ← List.append_assoc, List.take_append_drop]
      · rw [if_neg hcut] at h
        rw [if_neg hcut, if_neg hcut, if_neg hcut]
        by_cases hpos : 0 < buffer.length
        · rw [if_pos hpos] at h
          rw [if_pos hpos, if_pos hpos, if_pos hpos]
          obtain ⟨rest,hok,heq⟩ := ih [] h
          refine ⟨rest, hok, ?_⟩
          rw [List.append_assoc, heq, padBuffer_eq, List.append_assoc, List.length_nil,
            tailPadding_zero]
          rfl
        · rw [if_neg hpos] at h
          rw [if_neg hpos, if_neg hpos, if_neg hpos]
          obtain ⟨hsize,hrest⟩ := List.forall_mem_cons.mp h
          obtain ⟨rest,hok,heq⟩ := ih [] hrest
          have hwaste := appendFrame_ok ((waste_wellFormed size).mpr hsize) []
          have hbuffer : buffer = [] :=
            List.eq_nil_of_length_eq_zero (Nat.eq_zero_of_not_pos hpos)
          change appendFrame [] cmdWaste 0 (List.replicate size 0) = _ at hwaste
          rw [hwaste]
          refine ⟨rest, hok, ?_⟩
          simp only [List.length_nil, tailPadding_zero, List.nil_append] at heq
          simp only [hbuffer, List.nil_append, List.append_assoc, heq, List.flatMap_cons]
          rfl

/-- A WASTE frame that is too large ends the write in an error. -/
theorem writeSizes_error (sizes : List PaddingSize) (buffer : Bytes)
    (h : ∃ n ∈ wasteSizes sizes buffer.length, 65535 < n) :
    ∃ e, (writeSizes sizes buffer).2 = .error e := by
  induction sizes generalizing buffer with
  | nil => exact absurd h (by simp [wasteSizes])
  | cons size sizes ih =>
    cases size with
    | check =>
      rw [wasteSizes] at h
      rw [writeSizes]
      by_cases hnil : buffer.length = 0
      · rw [if_pos hnil] at h
        exact absurd h (by simp)
      · rw [if_neg hnil] at h ⊢
        exact ih buffer h
    | payload size =>
      rw [wasteSizes] at h
      rw [writeSizes]
      by_cases hcut : size < buffer.length
      · rw [if_pos hcut, ← List.length_drop] at h
        rw [if_pos hcut]
        exact ih _ h
      · rw [if_neg hcut] at h ⊢
        by_cases hpos : 0 < buffer.length
        · rw [if_pos hpos] at h ⊢
          exact ih [] h
        · rw [if_neg hpos] at h ⊢
          by_cases hsize : size ≤ 65535
          · have hwaste := appendFrame_ok ((waste_wellFormed size).mpr hsize) []
            change appendFrame [] cmdWaste 0 (List.replicate size 0) = _ at hwaste
            rw [hwaste]
            obtain ⟨n,hn,hlarge⟩ := h
            obtain rfl | hn := List.mem_cons.mp hn
            · exact absurd hlarge (Nat.not_lt.mpr hsize)
            · exact ih [] ⟨n, hn, hlarge⟩
          · have hwaste := appendFrame_large (mt (waste_wellFormed size).mp hsize) []
            change appendFrame [] cmdWaste 0 (List.replicate size 0) = _ at hwaste
            rw [hwaste]
            exact ⟨_, rfl⟩

/-! ## What the peer reads -/

def zeros (n : Nat) : Bytes := List.replicate n 0

theorem waste_bytes (n : Nat) :
    (Frame.waste n).bytes = cmdWaste :: (be32 0 ++ (be16 n ++ zeros n)) := by
  have hlen : (Frame.waste n).data.length = n := List.length_replicate
  rw [Frame.bytes, hlen]
  rfl

/-- Seven zeros are an empty WASTE frame. -/
theorem zeros_split (n : Nat) :
    zeros n = (List.replicate (n / 7) (Frame.waste 0)).flatMap Frame.bytes ++ zeros (n % 7) := by
  have hframes : ∀ m, zeros (7 * m) = (List.replicate m (Frame.waste 0)).flatMap Frame.bytes := by
    intro m
    induction m with
    | zero => rfl
    | succ m ih =>
      have hempty : zeros 7 = (Frame.waste 0).bytes := by decide
      have hsucc : zeros (7 * (m + 1)) = zeros 7 ++ zeros (7 * m) := by
        rw [Nat.mul_succ, Nat.add_comm, zeros, List.replicate_add]
        rfl
      rw [hsucc, hempty, ih, List.replicate_succ, List.flatMap_cons]
  rw [← hframes, zeros, zeros, zeros, ← List.replicate_add, Nat.div_add_mod]

/-- What the peer takes a filler for. -/
def fillerFrames (n : Nat) : List Frame :=
  .waste (n % 65536) :: List.replicate (n / 65536 * 65536 / 7) (.waste 0)

/-- A filler is read as WASTE frames; where its length does not fit the field, up to six
of its zeros are left. -/
theorem filler_split {n : Nat} (h : 0 < n) :
    filler n = (fillerFrames n).flatMap Frame.bytes ++ zeros (n / 65536 * 65536 % 7) := by
  have hn : n = n % 65536 + n / 65536 * 65536 := by omega
  have hzeros : List.replicate n (0 : UInt8) =
      zeros (n % 65536) ++ zeros (n / 65536 * 65536) := by
    rw [zeros, zeros, ← List.replicate_add, ← hn]
  rw [filler, if_pos h, hzeros, zeros_split (n / 65536 * 65536), ← be16_mod n, fillerFrames,
    List.flatMap_cons, waste_bytes]
  simp only [List.cons_append, List.append_assoc]

theorem decodeFrames_zeros {n : Nat} (h : n < 7) : decodeFrames (zeros n) = ([], zeros n) := by
  apply decodeFrames_none
  exact if_pos (by rwa [zeros, List.length_replicate])

def Frame.IsWaste (f : Frame) : Prop := f.WellFormed ∧ f.cmd = cmdWaste

theorem fillerFrames_waste (n : Nat) : ∀ f ∈ fillerFrames n, f.IsWaste := by
  rw [fillerFrames, List.forall_mem_cons]
  refine ⟨⟨(waste_wellFormed _).mpr (by omega), rfl⟩, fun f hf => ?_⟩
  rw [List.eq_of_mem_replicate hf]
  exact ⟨(waste_wellFormed 0).mpr (Nat.zero_le _), rfl⟩

theorem map_waste {sizes : List Nat} (h : ∀ n ∈ sizes, n ≤ 65535) :
    ∀ f ∈ sizes.map Frame.waste, f.IsWaste := by
  intro f hf
  obtain ⟨n,hn,rfl⟩ := List.mem_map.mp hf
  exact ⟨(waste_wellFormed n).mpr (h n hn), rfl⟩

/-- The frames in the given order, and only WASTE frames between them. -/
inductive Interleaved : List Frame → List Frame → Prop where
  | nil : Interleaved [] []
  | frame {fs parsed} (f : Frame) : Interleaved fs parsed → Interleaved (f :: fs) (f :: parsed)
  | waste {fs parsed} (f : Frame) : f.cmd = cmdWaste → Interleaved fs parsed →
      Interleaved fs (f :: parsed)

theorem Interleaved.append_waste (fs ws : List Frame) (h : ∀ w ∈ ws, w.IsWaste) :
    Interleaved fs (fs ++ ws) := by
  induction fs with
  | cons f fs ih => exact .frame f ih
  | nil =>
    induction ws with
    | nil => exact .nil
    | cons w ws ih =>
      obtain ⟨hw,hws⟩ := List.forall_mem_cons.mp h
      exact .waste w hw.2 (ih hws)

/-- The write succeeds, and its bytes parse as the frames interleaved with WASTE frames. -/
def Transparent (fs : List Frame) (written : Bytes × Except String Unit) : Prop :=
  written.2 = .ok () ∧ ∃ parsed, decodeFrames written.1 = (parsed, []) ∧ Interleaved fs parsed

/-- For a packet of `len` bytes: no WASTE frame is larger than a frame can be, and the
filler's length fits its field, or wraps such that whole empty frames are left over. -/
def PaddingState.Fits (s : PaddingState) (len : Nat) : Prop :=
  (∀ n ∈ wasteSizes s.sizes len, n ≤ 65535) ∧ tailPadding s.sizes len / 65536 % 7 = 0

instance (s : PaddingState) (len : Nat) : Decidable (s.Fits len) :=
  inferInstanceAs (Decidable (_ ∧ _))

theorem writeWithPadding_bytes (s : PaddingState) (buffer : Bytes)
    (h : ∀ n ∈ wasteSizes s.sizes buffer.length, n ≤ 65535) :
    (writeWithPadding s buffer).1 =
      (buffer ++ (filler (tailPadding s.sizes buffer.length) ++
        (wasteSizes s.sizes buffer.length).flatMap fun n => (Frame.waste n).bytes), .ok ()) := by
  obtain ⟨rest,hok,heq⟩ := writeSizes_ok s.sizes buffer h
  simp only [writeWithPadding, hok, heq]

theorem writeWithPadding_error (s : PaddingState) (buffer : Bytes)
    (h : ∃ n ∈ wasteSizes s.sizes buffer.length, 65535 < n) :
    (writeWithPadding s buffer).1.2 ≠ .ok () := by
  obtain ⟨e,herror⟩ := writeSizes_error s.sizes buffer h
  simp only [writeWithPadding, herror]
  nofun

/-- What stands behind the data of a packet that fits is nothing but WASTE frames. -/
theorem PaddingState.Fits.written {s : PaddingState} {buffer : Bytes} (h : s.Fits buffer.length) :
    ∃ ws : List Frame, (∀ w ∈ ws, w.IsWaste) ∧
      (writeWithPadding s buffer).1 = (buffer ++ ws.flatMap Frame.bytes, .ok ()) := by
  obtain ⟨hwaste,hwrap⟩ := h
  have hwastes := map_waste hwaste
  rw [writeWithPadding_bytes s buffer hwaste]
  by_cases hpos : 0 < tailPadding s.sizes buffer.length
  · have hmod : tailPadding s.sizes buffer.length / 65536 * 65536 % 7 = 0 := by omega
    refine ⟨fillerFrames (tailPadding s.sizes buffer.length) ++
      (wasteSizes s.sizes buffer.length).map Frame.waste, ?_, ?_⟩
    · intro w hw
      exact (List.mem_append.mp hw).elim (fillerFrames_waste _ w) (hwastes w)
    · rw [filler_split hpos, hmod, List.flatMap_append, List.flatMap_map, zeros,
        List.replicate_zero, List.append_nil]
  · refine ⟨(wasteSizes s.sizes buffer.length).map Frame.waste, hwastes, ?_⟩
    rw [Nat.eq_zero_of_not_pos hpos, List.flatMap_map]
    rfl

theorem decodeFrames_all {fs : List Frame} (h : ∀ f ∈ fs, f.WellFormed) :
    decodeFrames (fs.flatMap Frame.bytes) = (fs, []) := by
  have happ := decodeFrames_append fs h []
  rw [decodeFrames_nil, List.append_nil, List.append_nil] at happ
  exact happ

theorem transparent_of_fits (s : PaddingState) {fs : List Frame} (h : ∀ f ∈ fs, f.WellFormed)
    (hfits : s.Fits (fs.flatMap Frame.bytes).length) :
    Transparent fs (writeWithPadding s (fs.flatMap Frame.bytes)).1 := by
  obtain ⟨ws,hws,heq⟩ := hfits.written
  rw [heq]
  refine ⟨rfl, fs ++ ws, ?_, .append_waste fs ws hws⟩
  rw [← List.flatMap_append]
  apply decodeFrames_all
  intro f hf
  exact (List.mem_append.mp hf).elim (h f) fun hw => (hws f hw).1

/-- The zeros left of a filler with nothing behind it are read as no frame. -/
theorem filler_leftover {n : Nat} (h : n / 65536 % 7 ≠ 0) {fs : List Frame}
    (hfs : ∀ f ∈ fs, f.WellFormed) :
    (decodeFrames (fs.flatMap Frame.bytes ++ filler n)).2 ≠ [] := by
  have hpos : 0 < n := by omega
  have hframes : ∀ f ∈ fs ++ fillerFrames n, f.WellFormed := by
    intro f hf
    exact (List.mem_append.mp hf).elim (hfs f) fun hw => (fillerFrames_waste n f hw).1
  rw [filler_split hpos, ← List.append_assoc, ← List.flatMap_append,
    decodeFrames_append _ hframes, decodeFrames_zeros (by omega), zeros, ne_eq,
    List.replicate_eq_nil_iff, Nat.mul_mod]
  omega

/-- The padding is transparent where it fits. Unless more WASTE frames stand behind a filler
whose length has wrapped, and may happen to complete what is left of it, it is transparent
nowhere else. -/
theorem padding_transparent_iff_fits (s : PaddingState) (fs : List Frame)
    (h : ∀ f ∈ fs, f.WellFormed) :
    (s.Fits (fs.flatMap Frame.bytes).length →
      Transparent fs (writeWithPadding s (fs.flatMap Frame.bytes)).1) ∧
    (tailPadding s.sizes (fs.flatMap Frame.bytes).length ≤ 65535 ∨
        wasteSizes s.sizes (fs.flatMap Frame.bytes).length = [] →
      (Transparent fs (writeWithPadding s (fs.flatMap Frame.bytes)).1 ↔
        s.Fits (fs.flatMap Frame.bytes).length)) := by
  refine ⟨transparent_of_fits s h, fun hsimple => ⟨fun htrans => ?_, transparent_of_fits s h⟩⟩
  have hwaste : ∀ n ∈ wasteSizes s.sizes (fs.flatMap Frame.bytes).length, n ≤ 65535 := by
    intro n hn
    by_contra hlarge
    exact writeWithPadding_error s _ ⟨n, hn, Nat.not_le.mp hlarge⟩ htrans.1
  refine ⟨hwaste, ?_⟩
  obtain hshort | hnone := hsimple
  · omega
  · by_contra hwrap
    obtain ⟨_,parsed,hparsed,_⟩ := htrans
    rw [writeWithPadding_bytes s _ hwaste, hnone, List.flatMap_nil, List.append_nil] at hparsed
    exact filler_leftover hwrap h (congrArg Prod.snd hparsed)

/-- A SYN frame, filled up to 100 bytes. -/
theorem padding_transparent_iff_fits_syn :
    Transparent [⟨cmdSyn, 1, []⟩]
      (writeWithPadding ⟨⟨[], 2, [[], [.payload 100]]⟩, 1⟩ [cmdSyn, 0, 0, 0, 1, 0, 0]).1 :=
  (padding_transparent_iff_fits ⟨⟨[], 2, [[], [.payload 100]]⟩, 1⟩ [⟨cmdSyn, 1, []⟩]
    (by decide)).1 (by decide)

/-- A scheme under a generator that draws the least size, with the digest left at zero. -/
def sampleFactory (scheme : String) : Except PaddingError PaddingFactory :=
  PaddingFactory.new (fun _ => Vector.replicate 16 0) (fun _ _ => 0) (utf8 scheme.toList)

theorem sampleFactory_sizes {scheme : String} {sizes : List PaddingSize}
    (h : ((sampleFactory scheme).toOption.map fun padding => (PaddingState.mk padding 1).sizes) =
      some sizes) :
    ∃ padding, sampleFactory scheme = .ok padding ∧ (PaddingState.mk padding 1).sizes = sizes := by
  cases hf : sampleFactory scheme with
  | error e => simp [hf, Except.toOption] at h
  | ok padding =>
    rw [hf] at h
    exact ⟨padding, rfl, Option.some.inj h⟩

/-- A SYN frame whose filler is longer than its length field can say, with nothing behind. -/
theorem padding_wrapped (padding : PaddingFactory) (size : Nat)
    (hsizes : (PaddingState.mk padding 1).sizes = [.payload size])
    (hwrap : (size - 14) / 65536 % 7 ≠ 0) :
    ¬ Transparent [⟨cmdSyn, 1, []⟩]
      (writeWithPadding ⟨padding, 1⟩ (Frame.bytes ⟨cmdSyn, 1, []⟩)).1 := by
  rintro ⟨_,parsed,hparsed,_⟩
  have hlen : (Frame.bytes ⟨cmdSyn, 1, []⟩).length = 7 := rfl
  have hlarge : ¬ size < 7 := by omega
  have htail : tailPadding [.payload size] 7 = size - 14 := by
    rw [tailPadding, if_neg hlarge, if_pos (by decide)]
    rfl
  have hwaste : wasteSizes [.payload size] 7 = [] := by
    rw [wasteSizes, if_neg hlarge, if_pos (by decide), wasteSizes]
  rw [writeWithPadding_bytes _ _ (by rw [hsizes, hlen, hwaste]; exact nofun), hsizes, hlen, htail,
    hwaste, List.flatMap_nil, List.append_nil] at hparsed
  have hleft := @filler_leftover (size - 14) hwrap [⟨cmdSyn, 1, []⟩] (by decide)
  rw [List.flatMap_singleton, hparsed] at hleft
  exact hleft rfl

/-- Two accepted schemes for a SYN frame as packet 1: with a size above 65535 once nothing
remains the write fails, and a filler of 69986 bytes leaves two zeros. -/
theorem padding_not_transparent :
    (∃ padding, sampleFactory "stop=2\n1=30-30,65536-65536" = .ok padding ∧
      ¬ Transparent [⟨cmdSyn, 1, []⟩]
        (writeWithPadding ⟨padding, 1⟩ (Frame.bytes ⟨cmdSyn, 1, []⟩)).1) ∧
    ∃ padding, sampleFactory "stop=2\n1=70000-70000" = .ok padding ∧
      ¬ Transparent [⟨cmdSyn, 1, []⟩]
        (writeWithPadding ⟨padding, 1⟩ (Frame.bytes ⟨cmdSyn, 1, []⟩)).1 := by
  obtain ⟨padding,hpadding,hsizes⟩ :=
    @sampleFactory_sizes "stop=2\n1=30-30,65536-65536" [.payload 30, .payload 65536]
      (by decide +kernel)
  obtain ⟨padding',hpadding',hsizes'⟩ :=
    @sampleFactory_sizes "stop=2\n1=70000-70000" [.payload 70000] (by decide +kernel)
  refine ⟨⟨padding, hpadding, fun htrans => ?_⟩,
    padding', hpadding', padding_wrapped padding' 70000 hsizes' (by decide)⟩
  refine writeWithPadding_error _ _ ⟨65536, ?_, by decide⟩ htrans.1
  rw [hsizes]
  decide +kernel

end AtlasKernel.AnyTls
