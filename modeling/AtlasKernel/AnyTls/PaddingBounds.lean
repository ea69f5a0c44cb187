import AtlasKernel.AnyTls.ReadLoop

/-! What a padding scheme from the server makes the client allocate: the table of entries while
the scheme is read, and the filler while a packet is written.
Source: `PaddingFactory::new`, `write_with_padding` in `adapter/anytls.rs`. -/
namespace AtlasKernel.AnyTls
open AtlasKernel.Lib

/-! ## The scheme as text -/

inductive SchemeLine where
  | skip
  | stop (value : Option UInt32)
  | entry (index : Nat) (value : List Char)
deriving DecidableEq, Repr

def schemeLine (line : List Char) : SchemeLine :=
  match splitOnce '=' (trim line) with
  | none => .skip
  | some (key, value) =>
    if key = "stop".toList then .stop ((parseUnsigned 4294967295 value).map UInt32.ofNat)
    else
      match parseUnsigned 18446744073709551615 key with
      | none => .skip
      | some index => .entry index value

def schemeLines (raw : Bytes) : List SchemeLine := (lines (fromUtf8Lossy raw)).map schemeLine

/-- A number that is none ends the reading. -/
def readPart (scheme : List SchemeLine) : List SchemeLine := scheme.takeWhile (· ≠ .stop none)

def lastStop : List SchemeLine → Option UInt32
  | [] => none
  | .stop (some n) :: rest => (lastStop rest).or (some n)
  | _ :: rest => lastStop rest

/-- A later line takes the place of an earlier one. -/
def lastValue (index : Nat) : List SchemeLine → Option (List Char)
  | [] => none
  | .entry i value :: rest => (lastValue index rest).or (if i = index then some value else none)
  | _ :: rest => lastValue index rest

/-! ## Reading it -/

def SchemeLine.apply (draw : Nat → Nat) (stop : Option UInt32) (entries : List (List PaddingSize)) :
    SchemeLine → Except PaddingError (Option UInt32 × List (List PaddingSize))
  | .skip => .ok (stop, entries)
  | .stop none => .error .parseInt
  | .stop (some n) => .ok (some n, entries)
  | .entry index value =>
    if entries.length ≤ index ∧ maxEntries < index + 1 then .error .panicked
    else .ok (stop, setEntry entries index (parsePaddingSizes draw value))

theorem parseLine_eq (draw : Nat → Nat) (line : List Char) (stop : Option UInt32)
    (entries : List (List PaddingSize)) :
    parseLine draw line stop entries = (schemeLine line).apply draw stop entries := by
  rw [parseLine, schemeLine]
  cases splitOnce '=' (trim line) with
  | none => rfl
  | some pair =>
    obtain ⟨key,value⟩ := pair
    dsimp only
    split
    case isTrue => cases parseUnsigned 4294967295 value <;> rfl
    case isFalse => cases parseUnsigned 18446744073709551615 key <;> rfl

def applyLines (draw : Nat → Nat → Nat) : (i : Nat) → List SchemeLine → Option UInt32 →
    List (List PaddingSize) → Except PaddingError (Option UInt32 × List (List PaddingSize))
  | _, [], stop, entries => .ok (stop, entries)
  | i, line :: rest, stop, entries =>
    match line.apply (draw i) stop entries with
    | .error e => .error e
    | .ok (stop, entries) => applyLines draw (i + 1) rest stop entries

theorem parseLines_eq (draw : Nat → Nat → Nat) (i : Nat) (text : List (List Char))
    (stop : Option UInt32) (entries : List (List PaddingSize)) :
    parseLines draw i text stop entries = applyLines draw i (text.map schemeLine) stop entries := by
  induction text generalizing i stop entries with
  | nil => rfl
  | cons line text ih =>
    rw [parseLines, List.map_cons, applyLines, parseLine_eq]
    cases (schemeLine line).apply (draw i) stop entries with
    | error e => rfl
    | ok r => exact ih _ _ _

/-- The entries when the reading ends, with an error or without. -/
def tableAfter (draw : Nat → Nat → Nat) : (i : Nat) → List SchemeLine → Option UInt32 →
    List (List PaddingSize) → List (List PaddingSize)
  | _, [], _, entries => entries
  | i, line :: rest, stop, entries =>
    match line.apply (draw i) stop entries with
    | .error _ => entries
    | .ok (stop, entries) => tableAfter draw (i + 1) rest stop entries

def paddingTable (draw : Nat → Nat → Nat) (raw : Bytes) : List (List PaddingSize) :=
  tableAfter draw 0 (schemeLines raw) none (List.replicate 32 [])

/-- The indices of the entries that are read. -/
def Indices (p : Nat → Prop) (scheme : List SchemeLine) : Prop :=
  ∀ index value, .entry index value ∈ readPart scheme → p index

theorem setEntry_getD (entries : List (List PaddingSize)) (index i : Nat) (sizes : List PaddingSize) :
    (setEntry entries index sizes).getD i [] = if index = i then sizes else entries.getD i [] := by
  have hlen : index < (entries ++ List.replicate (index + 1 - entries.length) []).length := by
    rw [List.length_append, List.length_replicate]
    omega
  rw [setEntry, List.getD_eq_getElem?_getD, List.getElem?_set]
  by_cases heq : index = i
  · rw [if_pos heq, if_pos heq, if_pos hlen]
    rfl
  · rw [if_neg heq, if_neg heq, ← List.getD_eq_getElem?_getD]
    by_cases hold : i < entries.length
    · rw [List.getD_append _ _ _ _ hold]
    · rw [List.getD_append_right _ _ _ _ (Nat.not_lt.mp hold),
        List.getD_eq_default entries _ (Nat.not_lt.mp hold), List.getD_eq_getElem?_getD,
        List.getElem?_replicate]
      split <;> rfl

section
variable (draw : Nat → Nat) (stop : Option UInt32) {entries : List (List PaddingSize)} {index : Nat}

theorem apply_entry (h : index < maxEntries) (value : List Char) :
    (SchemeLine.entry index value).apply draw stop entries =
      .ok (stop, setEntry entries index (parsePaddingSizes draw value)) :=
  if_neg fun hlarge => Nat.not_lt.mpr h hlarge.2

theorem apply_entry_panicked (hlen : entries.length ≤ maxEntries) (h : ¬ index < maxEntries)
    (value : List Char) :
    (SchemeLine.entry index value).apply draw stop entries = .error .panicked :=
  if_pos ⟨hlen.trans (Nat.not_lt.mp h),Nat.lt_succ_of_le (Nat.not_lt.mp h)⟩

end

theorem indices_cons_iff (p : Nat → Prop) {line : SchemeLine} (hline : line ≠ .stop none)
    (scheme : List SchemeLine) :
    Indices p (line :: scheme) ↔
      (∀ index value, line = .entry index value → p index) ∧ Indices p scheme := by
  simp only [Indices, readPart, List.takeWhile_cons, decide_eq_true hline, if_true, List.mem_cons]
  constructor
  · intro h
    exact ⟨fun index value heq => h index value (.inl heq.symm),
      fun index value hmem => h index value (.inr hmem)⟩
  · rintro ⟨hfirst,hrest⟩ index value (heq | hmem)
    · exact hfirst index value heq.symm
    · exact hrest index value hmem

theorem indices_entry_iff (p : Nat → Prop) (index : Nat) (value : List Char)
    (scheme : List SchemeLine) :
    Indices p (.entry index value :: scheme) ↔ p index ∧ Indices p scheme := by
  rw [indices_cons_iff p (by simp)]
  simp

theorem indices_stop (p : Nat → Prop) (scheme : List SchemeLine) :
    Indices p (.stop none :: scheme) := by
  simp [Indices, readPart]

/-- A line that asks for an entry no table can hold. -/
theorem applyLines_panicked_iff (draw : Nat → Nat → Nat) (i : Nat) (scheme : List SchemeLine)
    (stop : Option UInt32) {entries : List (List PaddingSize)} (h : entries.length ≤ maxEntries) :
    applyLines draw i scheme stop entries = .error .panicked ↔ ¬ Indices (· < maxEntries) scheme := by
  induction scheme generalizing i stop entries with
  | nil => simp [applyLines, Indices, readPart]
  | cons line scheme ih =>
    cases line with
    | skip =>
      rw [indices_cons_iff _ (by simp)]
      simpa [applyLines, SchemeLine.apply] using ih (i + 1) stop h
    | stop value =>
      cases value with
      | none => simp [applyLines, SchemeLine.apply, indices_stop]
      | some n =>
        rw [indices_cons_iff _ (by simp)]
        simpa [applyLines, SchemeLine.apply] using ih (i + 1) (some n) h
    | entry index value =>
      rw [indices_entry_iff, applyLines]
      by_cases hindex : index < maxEntries
      · rw [apply_entry _ _ hindex]
        dsimp only
        rw [ih (i + 1) stop (by rw [setEntry_length]; omega)]
        simp [hindex]
      · rw [apply_entry_panicked _ _ h hindex]
        simp [hindex]

theorem tableAfter_length_le_iff (draw : Nat → Nat → Nat) (i : Nat) {scheme : List SchemeLine}
    (stop : Option UInt32) (entries : List (List PaddingSize)) (bound : Nat)
    (h : Indices (· < maxEntries) scheme) :
    (tableAfter draw i scheme stop entries).length ≤ bound ↔
      entries.length ≤ bound ∧ Indices (· < bound) scheme := by
  induction scheme generalizing i stop entries with
  | nil => simp [tableAfter, Indices, readPart]
  | cons line scheme ih =>
    cases line with
    | skip =>
      rw [indices_cons_iff _ (by simp)] at h ⊢
      simpa [tableAfter, SchemeLine.apply] using ih (i + 1) stop entries h.2
    | stop value =>
      cases value with
      | none => simp [tableAfter, SchemeLine.apply, indices_stop]
      | some n =>
        rw [indices_cons_iff _ (by simp)] at h ⊢
        simpa [tableAfter, SchemeLine.apply] using ih (i + 1) (some n) entries h.2
    | entry index value =>
      rw [indices_entry_iff] at h ⊢
      rw [tableAfter, apply_entry _ _ h.1]
      dsimp only
      rw [ih (i + 1) stop _ h.2, setEntry_length, Nat.max_le, and_assoc, Nat.succ_le_iff]

/-- A scheme that is read to its end. -/
theorem applyLines_ok (draw : Nat → Nat → Nat) (i : Nat) {scheme : List SchemeLine}
    (stop : Option UInt32) (entries : List (List PaddingSize)) (h : Indices (· < maxEntries) scheme)
    (hread : .stop none ∉ scheme) :
    ∃ entries', applyLines draw i scheme stop entries = .ok ((lastStop scheme).or stop, entries') ∧
      ∀ index, (lastValue index scheme = none → entries'.getD index [] = entries.getD index []) ∧
        ∀ value, lastValue index scheme = some value →
          ∃ j, entries'.getD index [] = parsePaddingSizes (draw j) value := by
  induction scheme generalizing i stop entries with
  | nil => exact ⟨entries, rfl, fun index => ⟨fun _ => rfl, fun value hvalue => by cases hvalue⟩⟩
  | cons line scheme ih =>
    rw [List.mem_cons, not_or] at hread
    rw [indices_cons_iff _ (Ne.symm hread.1)] at h
    cases line with
    | skip => exact ih (i + 1) stop entries h.2 hread.2
    | stop value =>
      cases value with
      | none => exact absurd rfl hread.1
      | some n =>
        obtain ⟨entries',hok,hentries⟩ := ih (i + 1) (some n) entries h.2 hread.2
        refine ⟨entries', ?_, hentries⟩
        rw [lastStop, Option.or_assoc]
        exact hok
    | entry index value =>
      obtain ⟨entries',hok,hentries⟩ :=
        ih (i + 1) stop (setEntry entries index (parsePaddingSizes (draw i) value)) h.2 hread.2
      refine ⟨entries', ?_, fun k => ?_⟩
      · rw [applyLines, apply_entry _ _ (h.1 index value rfl)]
        exact hok
      · obtain ⟨hnone,hsome⟩ := hentries k
        rw [setEntry_getD] at hnone
        rw [lastValue]
        cases hlast : lastValue k scheme with
        | some later => simpa [hlast] using hsome
        | none =>
          rw [Option.none_or]
          by_cases heq : index = k
          · rw [if_pos heq]
            rw [if_pos heq] at hnone
            refine ⟨fun hno => absurd hno (by simp), fun value' hvalue => ⟨i, ?_⟩⟩
            cases hvalue
            exact hnone hlast
          · rw [if_neg heq]
            rw [if_neg heq] at hnone
            exact ⟨fun _ => hnone hlast, fun value' hvalue => absurd hvalue (by simp)⟩

/-! ## The writer -/

/-- What the loop over the sizes allocates for each of them, when so much of the packet remains:
the buffer with the filler behind it, or the filler and its frame, before the length of the
frame is checked. -/
def allocations : List PaddingSize → (remaining : Nat) → List Nat
  | [], _ => []
  | .check :: sizes, remaining => if remaining = 0 then [] else allocations sizes remaining
  | .payload size :: sizes, remaining =>
    if size < remaining then allocations sizes (remaining - size)
    else if 0 < remaining then
      let paddingLen := size - (remaining + headerLen)
      (if 0 < paddingLen then [remaining + headerLen + paddingLen] else []) ++ allocations sizes 0
    else
      [headerLen + size, size] ++ if 65535 < size then [] else allocations sizes 0

/-- A frame of the greatest length there is. -/
def maxFrameLen : Nat := headerLen + 65535

/-- The sizes that are safe: behind a check there is always something left of the packet, and
the filler shares its buffer with that. -/
def SizesFit : (checked : Bool) → List PaddingSize → Prop
  | _, [] => True
  | _, .check :: sizes => SizesFit true sizes
  | checked, .payload size :: sizes =>
    size ≤ (if checked then maxFrameLen else 65535) ∧ SizesFit false sizes

instance SizesFit.decide : (checked : Bool) → (sizes : List PaddingSize) →
    Decidable (SizesFit checked sizes)
  | _, [] => .isTrue trivial
  | _, .check :: sizes => SizesFit.decide true sizes
  | checked, .payload size :: sizes =>
    @instDecidableAnd _ _ (inferInstanceAs (Decidable (size ≤ if checked then maxFrameLen else 65535)))
      (SizesFit.decide false sizes)

/-- The packets that reach a place behind a check, and the others. -/
def Reaches (checked : Bool) (remaining : Nat) : Prop := checked = true → 0 < remaining

/-- No packet makes the loop allocate more than a frame. -/
def Modest (checked : Bool) (sizes : List PaddingSize) : Prop :=
  ∀ remaining, Reaches checked remaining → ∀ n ∈ allocations sizes remaining, n ≤ maxFrameLen

theorem modest_check_iff (checked : Bool) (sizes : List PaddingSize) :
    Modest checked (.check :: sizes) ↔ Modest true sizes := by
  constructor
  · intro h remaining hreach
    have hpos := hreach rfl
    have hall := h remaining fun _ => hpos
    rwa [allocations, if_neg (Nat.ne_of_gt hpos)] at hall
  · intro h remaining _
    rw [allocations]
    split
    case isTrue => exact fun n hmem => absurd hmem List.not_mem_nil
    case isFalse hpos => exact h remaining fun _ => Nat.pos_of_ne_zero hpos

/-- A packet that comes to a size is padded to it, and what is left of a packet comes with the
header of the filler. -/
theorem Modest.size_le {checked : Bool} {size : Nat} {sizes : List PaddingSize}
    (h : Modest checked (.payload size :: sizes)) :
    size ≤ if checked then maxFrameLen else 65535 := by
  have hframe : maxFrameLen = 65542 := rfl
  have hheader : headerLen = 7 := rfl
  cases checked with
  | true =>
    by_contra hlarge
    rw [if_pos rfl, hframe] at hlarge
    have hone := h 1 fun _ => Nat.one_pos
    rw [allocations, if_neg (by omega), if_pos Nat.one_pos] at hone
    dsimp only at hone
    rw [if_pos (by omega)] at hone
    have htotal := hone _ (List.mem_append_left _ (List.mem_singleton_self _))
    omega
  | false =>
    have hzero := h 0 fun hno => by cases hno
    rw [allocations, if_neg (Nat.not_lt_zero _), if_neg (Nat.lt_irrefl 0)] at hzero
    have htotal := hzero _ (List.mem_append_left _ List.mem_cons_self)
    rw [if_neg (by decide)]
    omega

/-- A packet that is longer by a size comes to the sizes behind it. -/
theorem Modest.later {checked : Bool} {size : Nat} {sizes : List PaddingSize} (hsize : 0 < size)
    (h : Modest checked (.payload size :: sizes)) : Modest false sizes := by
  intro remaining _
  by_cases hnone : remaining = 0
  · have hfirst := h size fun _ => hsize
    rw [allocations, if_neg (Nat.lt_irrefl size), if_pos hsize] at hfirst
    rw [hnone]
    exact fun n hmem => hfirst n (List.mem_append_right _ hmem)
  · have hlt : size < size + remaining := Nat.lt_add_of_pos_right (Nat.pos_of_ne_zero hnone)
    have hfirst := h (size + remaining) fun _ => hsize.trans hlt
    rwa [allocations, if_pos hlt, Nat.add_sub_cancel_left] at hfirst

theorem Modest.payload {checked : Bool} {size : Nat} {sizes : List PaddingSize}
    (hle : size ≤ if checked then maxFrameLen else 65535) (hrest : Modest false sizes) :
    Modest checked (.payload size :: sizes) := by
  have hframe : maxFrameLen = 65542 := rfl
  have hheader : headerLen = 7 := rfl
  have hbound : size ≤ maxFrameLen := hle.trans (by split <;> decide)
  have hunchecked (left : Nat) : Reaches false left := fun hno => by cases hno
  intro remaining hreach
  rw [allocations]
  split
  case isTrue => exact hrest _ (hunchecked _)
  case isFalse hcut =>
    split
    case isTrue hsome =>
      intro n hmem
      dsimp only at hmem
      cases List.mem_append.mp hmem with
      | inl hbuffer =>
        split at hbuffer
        case isTrue hpad =>
          rw [List.mem_singleton.mp hbuffer]
          omega
        case isFalse => exact absurd hbuffer List.not_mem_nil
      | inr hmore => exact hrest 0 (hunchecked 0) n hmore
    case isFalse hnone =>
      have hchecked : checked = false := by
        cases checked with
        | true => exact absurd (hreach rfl) hnone
        | false => rfl
      rw [hchecked, if_neg (by decide)] at hle
      rw [if_neg (Nat.not_lt.mpr hle)]
      intro n hmem
      simp only [List.cons_append, List.nil_append, List.mem_cons] at hmem
      obtain rfl | rfl | hmore := hmem
      · omega
      · omega
      · exact hrest 0 (hunchecked 0) n hmore

theorem modest_payload_iff (checked : Bool) {size : Nat} (hsize : 0 < size) (sizes : List PaddingSize) :
    Modest checked (.payload size :: sizes) ↔
      size ≤ (if checked then maxFrameLen else 65535) ∧ Modest false sizes :=
  ⟨fun h => ⟨h.size_le, h.later hsize⟩, fun ⟨hle, hrest⟩ => .payload hle hrest⟩

/-- The exact bound, of which the place behind a check makes seven bytes. -/
theorem sizesFit_iff {sizes : List PaddingSize} (hpos : ∀ size, .payload size ∈ sizes → 0 < size)
    (checked : Bool) : SizesFit checked sizes ↔ Modest checked sizes := by
  induction sizes generalizing checked with
  | nil => exact iff_of_true trivial fun _ _ n hmem => absurd hmem List.not_mem_nil
  | cons size sizes ih =>
    have hrest := ih fun size hmem => hpos size (List.mem_cons_of_mem _ hmem)
    cases size with
    | check => rw [modest_check_iff, ← hrest, SizesFit]
    | payload size => rw [modest_payload_iff _ (hpos size List.mem_cons_self), ← hrest, SizesFit]

/-! ## The largest sizes -/

/-- What the generator has to draw for the largest size of a range. -/
def partDraw (part : List Char) : Nat :=
  match splitOnce '-' part with
  | none => 0
  | some (min, max) =>
    match parseUnsigned 18446744073709551615 min, parseUnsigned 18446744073709551615 max with
    | some min, some max => Nat.max min max - Nat.min min max - 1
    | _, _ => 0

def largestSizes (value : List Char) : List PaddingSize :=
  ((value.splitOn ',').map trim).filterMap fun part => parsePaddingSize (partDraw part) part

inductive SizeLe : PaddingSize → PaddingSize → Prop where
  | check : SizeLe .check .check
  | payload {a b : Nat} (h : a ≤ b) : SizeLe (.payload a) (.payload b)

/-- A part that is a range. -/
theorem parsePaddingSize_cases (part : List Char) :
    (∀ draw, parsePaddingSize draw part = none) ∨ (∀ draw, parsePaddingSize draw part = some .check) ∨
      ∃ low high, 0 < low ∧ low ≤ high ∧ partDraw part = high - low - 1 ∧
        ∀ draw, parsePaddingSize draw part =
          some (.payload (if low = high then low else low + draw % (high - low))) := by
  unfold parsePaddingSize partDraw
  by_cases hcheck : part = ['c']
  · simp [hcheck]
  · simp only [if_neg hcheck]
    cases splitOnce '-' part with
    | none => exact .inl fun _ => rfl
    | some pair =>
      obtain ⟨first,second⟩ := pair
      dsimp only
      cases parseUnsigned 18446744073709551615 first with
      | none => exact .inl fun _ => rfl
      | some a =>
        cases parseUnsigned 18446744073709551615 second with
        | none => exact .inl fun _ => rfl
        | some b =>
          dsimp only
          by_cases hzero : a = 0 ∨ b = 0
          · exact .inl fun _ => if_pos hzero
          · refine .inr (.inr ⟨Nat.min a b, Nat.max a b, ?_, ?_, rfl, fun _ => if_neg hzero⟩)
            · change 0 < min a b
              omega
            · change min a b ≤ max a b
              omega

theorem parsePaddingSize_le (draw : Nat) (part : List Char) :
    Option.Rel SizeLe (parsePaddingSize draw part) (parsePaddingSize (partDraw part) part) := by
  obtain hnone | hcheck | ⟨low,high,_,hle,hdraw,hrange⟩ := parsePaddingSize_cases part
  · rw [hnone, hnone]
    exact .none
  · rw [hcheck, hcheck]
    exact .some .check
  · rw [hrange, hrange, hdraw]
    refine .some (.payload ?_)
    by_cases heq : low = high
    · rw [if_pos heq, if_pos heq]
    · have hspan : 0 < high - low := by omega
      have hmod := Nat.mod_lt draw hspan
      rw [if_neg heq, if_neg heq, Nat.mod_eq_of_lt (Nat.sub_one_lt_of_lt hspan)]
      omega

theorem parsePaddingSize_pos {draw size : Nat} {part : List Char}
    (h : parsePaddingSize draw part = some (.payload size)) : 0 < size := by
  obtain hnone | hcheck | ⟨low,high,hlow,_,_,hrange⟩ := parsePaddingSize_cases part
  · rw [hnone] at h
    cases h
  · rw [hcheck] at h
    cases h
  · rw [hrange] at h
    cases h
    split <;> omega

theorem parsePaddingSizes_pos (draw : Nat → Nat) (value : List Char) :
    ∀ size, .payload size ∈ parsePaddingSizes draw value → 0 < size := by
  intro size hmem
  obtain ⟨part,_,hpart⟩ := List.mem_filterMap.mp hmem
  exact parsePaddingSize_pos hpart

theorem parsePaddingSizes_le (draw : Nat → Nat) (value : List Char) :
    List.Forall₂ SizeLe (parsePaddingSizes draw value) (largestSizes value) := by
  rw [parsePaddingSizes, largestSizes]
  generalize (value.splitOn ',').map trim = parts
  generalize 0 = first
  induction parts generalizing first with
  | nil => exact .nil
  | cons part parts ih =>
    have hpart := parsePaddingSize_le (draw first) part
    rw [List.zipIdx_cons, List.filterMap_cons, List.filterMap_cons]
    cases hdrawn : parsePaddingSize (draw first) part with
    | none =>
      rw [hdrawn] at hpart
      cases hlargest : parsePaddingSize (partDraw part) part with
      | none => exact ih (first + 1)
      | some b =>
        rw [hlargest] at hpart
        cases hpart
    | some a =>
      rw [hdrawn] at hpart
      cases hlargest : parsePaddingSize (partDraw part) part with
      | none =>
        rw [hlargest] at hpart
        cases hpart
      | some b =>
        rw [hlargest] at hpart
        cases hpart with
        | some hle => exact .cons hle (ih (first + 1))

/-- The generator can draw all of them. -/
theorem exists_largest (value : List Char) : ∃ draw, parsePaddingSizes draw value = largestSizes value := by
  unfold parsePaddingSizes largestSizes
  generalize (value.splitOn ',').map trim = parts
  refine ⟨fun j => partDraw (parts.getD j []), ?_⟩
  have hparts : parts = parts.zipIdx.map Prod.fst := (List.zipIdx_map_fst 0 parts).symm
  conv_rhs => rw [hparts, List.filterMap_map]
  apply List.filterMap_congr
  intro part hmem
  have hget : parts[part.2]? = some part.1 := List.mem_zipIdx_iff_getElem?.mp hmem
  dsimp only [Function.comp]
  rw [List.getD_eq_getElem?_getD, hget]
  rfl

theorem SizesFit.mono {checked : Bool} {sizes sizes' : List PaddingSize}
    (hle : List.Forall₂ SizeLe sizes sizes') (h : SizesFit checked sizes') : SizesFit checked sizes := by
  induction hle generalizing checked with
  | nil => trivial
  | cons hsize _ ih =>
    cases hsize with
    | check => exact ih h
    | payload hle => exact ⟨hle.trans h.1, ih h.2⟩

/-! ## What is allocated -/

/-- Reading the scheme ends without a panic, and what it allocates is in proportion to the
scheme, by `k` for the table; and afterwards a packet makes the writer allocate no more than a
frame for each size. -/
structure Safe (md5 : Md5) (k : Nat) (raw : Bytes) : Prop where
  returns : ∀ draw, PaddingFactory.new md5 draw raw ≠ .error .panicked
  text : (fromUtf8Lossy raw).length ≤ raw.length
  table : ∀ draw, (paddingTable draw raw).length ≤ 32 + k * raw.length
  sizes : ∀ draw, ∀ entry ∈ paddingTable draw raw, entry.length ≤ 1 + raw.length
  writes : ∀ draw padding, PaddingFactory.new md5 draw raw = .ok padding →
    ∀ packetCounter, ∀ buffer : Bytes, buffer ≠ [] →
      ∀ n ∈ allocations (PaddingState.mk padding packetCounter).sizes buffer.length, n ≤ maxFrameLen

/-- The indices are in proportion to the scheme, and below the stop no range goes beyond a
frame. -/
structure SafeScheme (k : Nat) (raw : Bytes) : Prop where
  indices : Indices (fun index => index < maxEntries ∧ index < 32 + k * raw.length) (schemeLines raw)
  ranges : .stop none ∉ schemeLines raw → ∀ stop, lastStop (schemeLines raw) = some stop →
    ∀ index < stop.toNat, ∀ value, lastValue index (schemeLines raw) = some value →
      SizesFit true (largestSizes value)

theorem parsePaddingSizes_length (draw : Nat → Nat) (value : List Char) :
    (parsePaddingSizes draw value).length ≤ 1 + value.length := by
  have hparts := splitOn_length_le ',' value
  rw [parsePaddingSizes]
  apply (List.length_filterMap_le _ _).trans
  rw [List.length_zipIdx, List.length_map]
  omega

theorem schemeLine_length {line value : List Char} {index : Nat}
    (h : schemeLine line = .entry index value) : value.length ≤ line.length := by
  have htrim := trim_length_le line
  rw [schemeLine] at h
  cases hsplit : splitOnce '=' (trim line) with
  | none => simp [hsplit] at h
  | some pair =>
    have hlen := splitOnce_length hsplit
    rw [hsplit] at h
    dsimp only at h
    split at h
    case isTrue => cases h
    case isFalse =>
      cases hkey : parseUnsigned 18446744073709551615 pair.1 with
      | none => simp [hkey] at h
      | some i =>
        rw [hkey] at h
        cases h
        omega

theorem tableAfter_sizes (draw : Nat → Nat → Nat) (i : Nat) {scheme : List SchemeLine}
    (stop : Option UInt32) {entries : List (List PaddingSize)} {bound : Nat}
    (hentries : ∀ entry ∈ entries, entry.length ≤ 1 + bound)
    (hscheme : ∀ index value, .entry index value ∈ scheme → value.length ≤ bound) :
    ∀ entry ∈ tableAfter draw i scheme stop entries, entry.length ≤ 1 + bound := by
  induction scheme generalizing i stop entries with
  | nil => exact hentries
  | cons line scheme ih =>
    have hrest : ∀ index value, .entry index value ∈ scheme → value.length ≤ bound :=
      fun index value hmem => hscheme index value (List.mem_cons_of_mem _ hmem)
    rw [tableAfter]
    cases line with
    | skip => exact ih (i + 1) stop hentries hrest
    | stop value =>
      cases value with
      | none => exact hentries
      | some n => exact ih (i + 1) (some n) hentries hrest
    | entry index value =>
      rw [SchemeLine.apply]
      split
      case h_1 => exact hentries
      case h_2 happly =>
        split at happly
        case isTrue => cases happly
        case isFalse =>
          cases happly
          apply ih (i + 1) stop _ hrest
          intro entry hmem
          cases List.mem_or_eq_of_mem_set hmem with
          | inl hold =>
            cases List.mem_append.mp hold with
            | inl hfirst => exact hentries entry hfirst
            | inr hnew => simp [List.eq_of_mem_replicate hnew]
          | inr hset =>
            have hvalue := hscheme index value List.mem_cons_self
            have hsizes := parsePaddingSizes_length (draw i) value
            rw [hset]
            omega

theorem paddingTable_sizes (draw : Nat → Nat → Nat) (raw : Bytes) :
    ∀ entry ∈ paddingTable draw raw, entry.length ≤ 1 + raw.length := by
  apply tableAfter_sizes draw 0 none
  · intro entry hmem
    simp [List.eq_of_mem_replicate hmem]
  · intro index value hmem
    obtain ⟨line,hline,hentry⟩ := List.mem_map.mp hmem
    exact ((schemeLine_length hentry).trans (mem_lines_length_le hline)).trans
      (fromUtf8Lossy_length_le raw)

theorem new_eq (md5 : Md5) (draw : Nat → Nat → Nat) (raw : Bytes) :
    PaddingFactory.new md5 draw raw =
      match applyLines draw 0 (schemeLines raw) none (List.replicate 32 []) with
      | .error e => .error e
      | .ok (none, _) => .error .stopMissing
      | .ok (some stop, entries) => .ok ⟨hex (md5 raw).toList, stop, entries⟩ := by
  rw [PaddingFactory.new, parseLines_eq]
  rfl

theorem new_panicked_iff_indices (md5 : Md5) (draw : Nat → Nat → Nat) (raw : Bytes) :
    PaddingFactory.new md5 draw raw = .error .panicked ↔
      ¬ Indices (· < maxEntries) (schemeLines raw) := by
  have hlen : (List.replicate 32 ([] : List PaddingSize)).length ≤ maxEntries := by decide
  rw [← applyLines_panicked_iff draw 0 _ none hlen, new_eq]
  cases applyLines draw 0 (schemeLines raw) none (List.replicate 32 []) with
  | error e => simp
  | ok r =>
    obtain ⟨stop,entries⟩ := r
    cases stop <;> simp

theorem applyLines_read {draw : Nat → Nat → Nat} {i : Nat} {scheme : List SchemeLine}
    {stop : Option UInt32} {entries : List (List PaddingSize)}
    {r : Option UInt32 × List (List PaddingSize)}
    (h : applyLines draw i scheme stop entries = .ok r) : .stop none ∉ scheme := by
  induction scheme generalizing i stop entries with
  | nil => exact List.not_mem_nil
  | cons line scheme ih =>
    rw [applyLines] at h
    cases happly : line.apply (draw i) stop entries with
    | error e => simp [happly] at h
    | ok next =>
      rw [happly] at h
      rw [List.mem_cons, not_or]
      refine ⟨?_, ih h⟩
      rintro rfl
      cases happly

/-- A scheme that is accepted. -/
theorem new_ok {md5 : Md5} {draw : Nat → Nat → Nat} {raw : Bytes}
    (h : Indices (· < maxEntries) (schemeLines raw)) (hread : .stop none ∉ schemeLines raw) :
    ∃ entries, (∀ padding, PaddingFactory.new md5 draw raw = .ok padding ↔
        ∃ stop, lastStop (schemeLines raw) = some stop ∧ padding = ⟨hex (md5 raw).toList, stop, entries⟩) ∧
      ∀ index, (lastValue index (schemeLines raw) = none → entries.getD index [] = []) ∧
        ∀ value, lastValue index (schemeLines raw) = some value →
          ∃ j, entries.getD index [] = parsePaddingSizes (draw j) value := by
  obtain ⟨entries,hok,hentries⟩ := applyLines_ok draw 0 none (List.replicate 32 []) h hread
  refine ⟨entries, fun padding => ?_, fun index => ⟨fun hnone => ?_, (hentries index).2⟩⟩
  · rw [new_eq, hok, Option.or_none]
    cases lastStop (schemeLines raw) with
    | none => simp
    | some stop => simp [eq_comm]
  · rw [(hentries index).1 hnone, List.getD_eq_getElem?_getD, List.getElem?_replicate]
    split <;> rfl

theorem Safe.ranges {md5 : Md5} {k : Nat} {raw : Bytes} (h : Safe md5 k raw)
    (hindices : Indices (· < maxEntries) (schemeLines raw)) (hread : .stop none ∉ schemeLines raw)
    {stop : UInt32} (hstop : lastStop (schemeLines raw) = some stop) {index : Nat}
    (hindex : index < stop.toNat) {value : List Char}
    (hvalue : lastValue index (schemeLines raw) = some value) : SizesFit true (largestSizes value) := by
  obtain ⟨draw,hdraw⟩ := exists_largest value
  obtain ⟨entries,hnew,hentries⟩ := @new_ok md5 (fun _ => draw) raw hindices hread
  obtain ⟨_,hsizes⟩ := (hentries index).2 value hvalue
  have hpadding := (hnew ⟨hex (md5 raw).toList, stop, entries⟩).mpr ⟨stop, hstop, rfl⟩
  have hpos := parsePaddingSizes_pos draw value
  rw [hdraw] at hpos hsizes
  rw [sizesFit_iff hpos]
  intro remaining hreach
  have hremaining := hreach rfl
  have hbuffer : List.replicate remaining (0 : UInt8) ≠ [] := by
    rw [Ne, List.replicate_eq_nil_iff]
    exact Nat.ne_of_gt hremaining
  have hwrite := h.writes _ _ hpadding (UInt32.ofNat index) _ hbuffer
  have hnat : (UInt32.ofNat index).toNat = index := by
    have hlt := stop.toNat_lt
    rw [UInt32.toNat_ofNat']
    exact Nat.mod_eq_of_lt (by omega)
  have hpacket : UInt32.ofNat index < stop := by
    rwa [UInt32.lt_iff_toNat_lt, hnat]
  rwa [List.length_replicate, PaddingState.sizes, if_pos hpacket, PaddingFactory.sizes, hnat,
    hsizes] at hwrite

/-- What the writer cuts a packet to, when the largest sizes fit. -/
theorem SafeScheme.sizes {md5 : Md5} {k : Nat} {raw : Bytes} (h : SafeScheme k raw)
    {draw : Nat → Nat → Nat} {padding : PaddingFactory}
    (hnew : PaddingFactory.new md5 draw raw = .ok padding) (packetCounter : UInt32) :
    Modest true (PaddingState.mk padding packetCounter).sizes := by
  have hindices : Indices (· < maxEntries) (schemeLines raw) :=
    fun index value hmem => (h.indices index value hmem).1
  have hread : .stop none ∉ schemeLines raw := by
    rw [new_eq] at hnew
    cases hlines : applyLines draw 0 (schemeLines raw) none (List.replicate 32 []) with
    | error e =>
      rw [hlines] at hnew
      cases hnew
    | ok r => exact applyLines_read hlines
  have hnothing : Modest true [] := fun _ _ n hmem => absurd hmem List.not_mem_nil
  obtain ⟨entries,hpadding,hentries⟩ := @new_ok md5 draw raw hindices hread
  obtain ⟨stop,hstop,rfl⟩ := (hpadding padding).mp hnew
  rw [PaddingState.sizes]
  split
  case isFalse => exact hnothing
  case isTrue hlt =>
    rw [PaddingFactory.sizes]
    cases hvalue : lastValue packetCounter.toNat (schemeLines raw) with
    | none =>
      rw [(hentries _).1 hvalue]
      exact hnothing
    | some value =>
      obtain ⟨j,hsizes⟩ := (hentries _).2 value hvalue
      have hlargest := h.ranges hread stop hstop _ (UInt32.lt_iff_toNat_lt.mp hlt) value hvalue
      rw [hsizes, ← sizesFit_iff (parsePaddingSizes_pos _ _)]
      exact hlargest.mono (parsePaddingSizes_le _ _)

end AtlasKernel.AnyTls
