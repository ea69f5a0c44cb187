import AtlasKernel.Lib.Bytes
import AtlasKernel.Lib.Scanner

/-! The Vision unpadding of the VLESS downlink: blocks with a command and two length
fields until a command ends the padding, then raw bytes. Source: `adapter/vless.rs`. -/
namespace AtlasKernel.Vless
open AtlasKernel.Lib

abbrev Uuid := Vector UInt8 16

inductive VisionUnpaddingMode where
  | unknown | padding | raw
deriving DecidableEq, Repr

structure VisionUnpaddingState where
  uuid : Uuid
  pending : Bytes
  mode : VisionUnpaddingMode
deriving DecidableEq, Repr

inductive VisionChunk where
  | borrowed (value : Bytes)
  | owned (value : Bytes)
deriving DecidableEq, Repr

def VisionChunk.asRef : VisionChunk → Bytes
  | .borrowed value => value
  | .owned value => value

structure VisionPushResult where
  chunks : List VisionChunk
  direct : Bool
deriving DecidableEq, Repr

/-- The content of all chunks, as the callers write it out. -/
def VisionPushResult.bytes (r : VisionPushResult) : Bytes := r.chunks.flatMap VisionChunk.asRef

def contentLen (block : Bytes) : Nat := ofBe16 (block.getD 1 0) (block.getD 2 0)
def paddingLen (block : Bytes) : Nat := ofBe16 (block.getD 3 0) (block.getD 4 0)
def blockLen (block : Bytes) : Nat := 5 + contentLen block + paddingLen block

def blockBytes (block : Bytes) : Bytes := (block.take (5 + contentLen block)).drop 5

/-- The content of the block at the front, unless it is empty. -/
def blockContent (block : Bytes) : List Bytes :=
  if 0 < contentLen block then [blockBytes block] else []

/-- What is left of a buffer, unless it is empty. -/
def leftover (buffer : Bytes) : List Bytes := if buffer ≠ [] then [buffer] else []

namespace VisionUnpaddingState

def new (uuid : Uuid) : VisionUnpaddingState := ⟨uuid, [], .unknown⟩

/-- The loop of `push`, on the pending buffer. -/
def pushLoop (s : VisionUnpaddingState) : VisionUnpaddingState × VisionPushResult :=
  match s.mode with
  | .unknown =>
    if _h : s.pending.length < 16 then (s, ⟨[], false⟩)
    else if s.pending.take 16 = s.uuid.toList then
      pushLoop { s with pending := s.pending.drop 16, mode := .padding }
    else ({ s with pending := [], mode := .raw }, ⟨[.owned s.pending], false⟩)
  | .padding =>
    if _h : s.pending.length < 5 then (s, ⟨[], false⟩)
    else
      let command := s.pending.getD 0 0
      if 2 < command then ({ s with pending := [], mode := .raw }, ⟨[.owned s.pending], false⟩)
      else if _h' : s.pending.length < blockLen s.pending then (s, ⟨[], false⟩)
      else
        let content := (blockContent s.pending).map .owned
        let rest := s.pending.drop (blockLen s.pending)
        if command ≠ 0 then
          ({ s with pending := [], mode := .raw },
            ⟨content ++ (leftover rest).map .owned, command = 2⟩)
        else
          let r := pushLoop { s with pending := rest }
          (r.1, ⟨content ++ r.2.chunks, r.2.direct⟩)
  | .raw => ({ s with pending := [] }, ⟨(leftover s.pending).map .owned, false⟩)
termination_by s.pending.length
decreasing_by
  · simp; omega
  · simp [blockLen]; omega

/-- The loop of `push_without_pending`, on the input behind `offset`. -/
def directLoop (s : VisionUnpaddingState) (input : Bytes) :
    VisionUnpaddingState × VisionPushResult :=
  if _h : input = [] then (s, ⟨[], false⟩)
  else if input.length < 5 then ({ s with pending := s.pending ++ input }, ⟨[], false⟩)
  else
    let command := input.getD 0 0
    if 2 < command then ({ s with mode := .raw }, ⟨[.borrowed input], false⟩)
    else if _h' : input.length < blockLen input then
      ({ s with pending := s.pending ++ input }, ⟨[], false⟩)
    else
      let content := (blockContent input).map .borrowed
      let rest := input.drop (blockLen input)
      if command ≠ 0 then
        ({ s with mode := .raw }, ⟨content ++ (leftover rest).map .borrowed, command = 2⟩)
      else
        let r := directLoop s rest
        (r.1, ⟨content ++ r.2.chunks, r.2.direct⟩)
termination_by input.length
decreasing_by
  simp [blockLen]; omega

def pushWithoutPending (s : VisionUnpaddingState) (data : Bytes) :
    VisionUnpaddingState × VisionPushResult :=
  if s.mode = .unknown then
    if data.length < 16 then ({ s with pending := s.pending ++ data }, ⟨[], false⟩)
    else if data.take 16 = s.uuid.toList then
      directLoop { s with mode := .padding } (data.drop 16)
    else ({ s with mode := .raw }, ⟨[.borrowed data], false⟩)
  else directLoop s data

/-- The part of `push` that appends to the pending buffer. -/
def pushBuffered (s : VisionUnpaddingState) (data : Bytes) :
    VisionUnpaddingState × VisionPushResult :=
  pushLoop { s with pending := s.pending ++ data }

def push (s : VisionUnpaddingState) (data : Bytes) : VisionUnpaddingState × VisionPushResult :=
  if s.mode = .raw then (s, ⟨[.borrowed data], false⟩)
  else if s.pending = [] then s.pushWithoutPending data
  else s.pushBuffered data

/-- Successive pushes: the final state, all bytes, and whether any of them reported the
switch to direct mode. -/
def pushAll (s : VisionUnpaddingState) : List Bytes → VisionUnpaddingState × Bytes × Bool
  | [] => (s, [], false)
  | data :: more =>
    let r := s.push data
    let r' := pushAll r.1 more
    (r'.1, r.2.bytes ++ r'.2.1, r.2.direct || r'.2.2)

end VisionUnpaddingState

/-! ## The decoder unit by unit -/

inductive Emit where
  | byte (b : UInt8)
  | direct
deriving DecidableEq, Repr

def Emit.toByte : Emit → Option UInt8
  | .byte b => some b
  | .direct => none

def emitBytes (out : List Emit) : Bytes := out.filterMap Emit.toByte

@[simp] theorem emitBytes_nil : emitBytes [] = [] := rfl
@[simp] theorem emitBytes_append (xs ys : List Emit) :
    emitBytes (xs ++ ys) = emitBytes xs ++ emitBytes ys := List.filterMap_append
@[simp] theorem emitBytes_map (bs : Bytes) : emitBytes (bs.map .byte) = bs := by
  induction bs with
  | nil => rfl
  | cons b bs ih => simpa [emitBytes, Emit.toByte] using ih

@[simp] theorem emitBytes_direct (xs : List Emit) : emitBytes (.direct :: xs) = emitBytes xs := rfl

/-- The units are the UUID, the decision for raw mode, a block, and a raw byte. -/
def visionUnit (uuid : Uuid) : VisionUnpaddingMode → Bytes →
    Option (VisionUnpaddingMode × Bytes × List Emit)
  | .unknown, buf =>
    if buf.length < 16 then none
    else if buf.take 16 = uuid.toList then some (.padding, buf.drop 16, [])
    else some (.raw, buf, [])
  | .padding, buf =>
    if buf.length < 5 then none
    else if 2 < buf.getD 0 0 then some (.raw, buf, [])
    else if buf.length < blockLen buf then none
    else some (if buf.getD 0 0 = 0 then .padding else .raw, buf.drop (blockLen buf),
      (blockBytes buf).map .byte ++ if buf.getD 0 0 = 2 then [.direct] else [])
  | .raw, [] => none
  | .raw, b :: bs => some (.raw, bs, [.byte b])

def modeWeight : VisionUnpaddingMode → Nat
  | .raw => 0
  | _ => 1

theorem visionUnit_decreasing {uuid : Uuid} {mode mode' : VisionUnpaddingMode}
    {buf rest : Bytes} {out : List Emit} (h : visionUnit uuid mode buf = some (mode', rest, out)) :
    modeWeight mode' + rest.length < modeWeight mode + buf.length := by
  unfold visionUnit at h
  split at h
  · split at h
    · cases h
    · split at h
      · cases h
        simp [modeWeight]
        omega
      · cases h
        simp [modeWeight]
  · split at h
    · cases h
    · split at h
      · cases h
        simp [modeWeight]
      · split at h
        · cases h
        · cases h
          split <;> simp [modeWeight, blockLen] <;> omega
  · cases h
  · cases h
    simp [modeWeight]

/-- The fields of a block are read from its first five bytes. -/
theorem getD_append_left {buf : Bytes} {n : Nat} (h : n < buf.length) (more : Bytes) :
    (buf ++ more).getD n 0 = buf.getD n 0 := by
  simp [List.getD_eq_getElem?_getD, List.getElem?_append_left h]

theorem blockLen_append {buf : Bytes} (h : 5 ≤ buf.length) (more : Bytes) :
    blockLen (buf ++ more) = blockLen buf ∧ contentLen (buf ++ more) = contentLen buf := by
  simp only [blockLen, contentLen, paddingLen]
  rw [getD_append_left (by omega), getD_append_left (by omega), getD_append_left (by omega),
    getD_append_left (by omega)]
  exact ⟨rfl,rfl⟩

theorem blockBytes_append {buf : Bytes} (h5 : 5 ≤ buf.length) (h : blockLen buf ≤ buf.length)
    (more : Bytes) : blockBytes (buf ++ more) = blockBytes buf := by
  have hle : 5 + contentLen buf ≤ buf.length := by
    rw [blockLen] at h
    omega
  rw [blockBytes, blockBytes, (blockLen_append h5 more).2, List.take_append_of_le_length hle]

theorem visionUnit_stable {uuid : Uuid} {mode mode' : VisionUnpaddingMode}
    {buf rest : Bytes} {out : List Emit} (h : visionUnit uuid mode buf = some (mode', rest, out))
    (more : Bytes) : visionUnit uuid mode (buf ++ more) = some (mode', rest ++ more, out) := by
  cases mode with
  | unknown =>
    by_cases h16 : buf.length < 16
    · simp [visionUnit, h16] at h
    · have htake : (buf ++ more).take 16 = buf.take 16 :=
        List.take_append_of_le_length (by omega)
      have hdrop : (buf ++ more).drop 16 = buf.drop 16 ++ more :=
        List.drop_append_of_le_length (by omega)
      have hlen : ¬ (buf ++ more).length < 16 := by simp; omega
      simp only [visionUnit, if_neg h16, if_neg hlen, htake, hdrop] at h ⊢
      split at h <;> simp_all
  | padding =>
    by_cases h5 : buf.length < 5
    · simp [visionUnit, h5] at h
    · have h5' : 5 ≤ buf.length := by omega
      have hlen : ¬ (buf ++ more).length < 5 := by simp; omega
      have hcmd : (buf ++ more).getD 0 0 = buf.getD 0 0 := getD_append_left (by omega) more
      obtain ⟨hblock,_⟩ := blockLen_append h5' more
      simp only [visionUnit, if_neg h5, if_neg hlen, hcmd, hblock] at h ⊢
      by_cases hc : 2 < buf.getD 0 0
      · rw [if_pos hc] at h ⊢
        cases h
        rfl
      · rw [if_neg hc] at h ⊢
        by_cases hb : buf.length < blockLen buf
        · rw [if_pos hb] at h
          cases h
        · have hb' : ¬ (buf ++ more).length < blockLen buf := by simp; omega
          have hdrop : (buf ++ more).drop (blockLen buf) = buf.drop (blockLen buf) ++ more :=
            List.drop_append_of_le_length (by omega)
          rw [if_neg hb] at h
          rw [if_neg hb', hdrop, blockBytes_append h5' (by omega)]
          cases h
          rfl
  | raw =>
    cases buf with
    | nil => cases h
    | cons b bs => cases h; rfl

def visionScanner (uuid : Uuid) : Scanner VisionUnpaddingMode UInt8 Emit where
  step := visionUnit uuid
  weight := modeWeight
  decreasing := visionUnit_decreasing
  stable := visionUnit_stable

/-! ## Both paths run the units -/

/-- A state and a result that agree with a run of the units. -/
structure Agrees (uuid : Uuid) (r : VisionUnpaddingState × VisionPushResult)
    (run : VisionUnpaddingMode × Bytes × List Emit) : Prop where
  uuid_eq : r.1.uuid = uuid
  mode_eq : r.1.mode = run.1
  pending_eq : r.1.pending = run.2.1
  bytes_eq : r.2.bytes = emitBytes run.2.2
  direct_eq : r.2.direct = decide (Emit.direct ∈ run.2.2)

theorem run_raw (uuid : Uuid) (buf : Bytes) :
    (visionScanner uuid).run .raw buf = (.raw, [], buf.map .byte) := by
  induction buf with
  | nil => exact Scanner.run_wait rfl
  | cons b bs ih =>
    have hunit : (visionScanner uuid).step .raw (b::bs) = some (.raw, bs, [.byte b]) := rfl
    rw [Scanner.run_unit hunit, ih]
    rfl

@[simp] theorem asRef_borrowed : VisionChunk.asRef ∘ VisionChunk.borrowed = id := rfl
@[simp] theorem asRef_owned : VisionChunk.asRef ∘ VisionChunk.owned = id := rfl

@[simp] theorem leftover_flatten (buffer : Bytes) : (leftover buffer).flatten = buffer := by
  unfold leftover
  split
  · simp
  · simp_all

@[simp] theorem blockContent_flatten (block : Bytes) :
    (blockContent block).flatten = blockBytes block := by
  unfold blockContent
  split
  · simp
  · have h0 : contentLen block = 0 := by omega
    simp [blockBytes, h0]

@[simp] theorem bytes_owned (pieces : List Bytes) (direct : Bool) :
    VisionPushResult.bytes ⟨pieces.map .owned, direct⟩ = pieces.flatten := by
  simp [VisionPushResult.bytes, List.flatMap_map, VisionChunk.asRef, List.flatMap_id']

@[simp] theorem bytes_append (xs ys : List VisionChunk) (direct : Bool) :
    VisionPushResult.bytes ⟨xs ++ ys, direct⟩ =
      VisionPushResult.bytes ⟨xs, direct⟩ ++ VisionPushResult.bytes ⟨ys, direct⟩ :=
  List.flatMap_append ..

@[simp] theorem direct_mem_map (bs : Bytes) : Emit.direct ∈ bs.map Emit.byte ↔ False := by
  simp

/-- A decision for raw mode hands out the whole buffer. -/
theorem run_to_raw {uuid : Uuid} {mode : VisionUnpaddingMode} {buf rest : Bytes}
    {out : List Emit} (h : visionUnit uuid mode buf = some (.raw, rest, out)) :
    (visionScanner uuid).run mode buf = (.raw, [], out ++ rest.map .byte) := by
  have hunit : (visionScanner uuid).step mode buf = some (.raw, rest, out) := h
  rw [Scanner.run_unit hunit, run_raw]

/-- The buffered path takes the units of the pending buffer. -/
theorem pushLoop_agrees (s : VisionUnpaddingState) :
    Agrees s.uuid s.pushLoop ((visionScanner s.uuid).run s.mode s.pending) := by
  fun_induction VisionUnpaddingState.pushLoop s with
  | case1 s hm h =>
    rw [hm, Scanner.run_wait (by simp [visionScanner, visionUnit, h])]
    exact ⟨rfl,hm,rfl,rfl,rfl⟩
  | case2 s hm h hu ih =>
    have hunit : (visionScanner s.uuid).step .unknown s.pending =
        some (.padding, s.pending.drop 16, []) := by
      simp [visionScanner, visionUnit, h, hu]
    rw [hm, Scanner.run_unit hunit]
    exact ih
  | case3 s hm h hu =>
    have hunit : visionUnit s.uuid .unknown s.pending = some (.raw, s.pending, []) := by
      simp [visionUnit, h, hu]
    rw [hm, run_to_raw hunit]
    exact ⟨rfl,rfl,rfl,by simp [VisionPushResult.bytes, VisionChunk.asRef],by simp⟩
  | case4 s hm h =>
    rw [hm, Scanner.run_wait (by simp [visionScanner, visionUnit, h])]
    exact ⟨rfl,hm,rfl,rfl,rfl⟩
  | case5 s hm h command hc =>
    have hunit : visionUnit s.uuid .padding s.pending = some (.raw, s.pending, []) := by
      rw [visionUnit, if_neg h]
      exact if_pos hc
    rw [hm, run_to_raw hunit]
    exact ⟨rfl,rfl,rfl,by simp [VisionPushResult.bytes, VisionChunk.asRef],by simp⟩
  | case6 s hm h command hc hb =>
    have hwait : (visionScanner s.uuid).step .padding s.pending = none := by
      simp only [visionScanner, visionUnit, if_neg h, if_pos hb]
      exact if_neg hc
    rw [hm, Scanner.run_wait hwait]
    exact ⟨rfl,hm,rfl,rfl,rfl⟩
  | case7 s hm h command hc hb content rest h0 =>
    have hunit : visionUnit s.uuid .padding s.pending = some (.raw, rest,
        (blockBytes s.pending).map .byte ++ if command = 2 then [.direct] else []) := by
      rw [visionUnit, if_neg h, if_neg hc, if_neg hb, if_neg h0]
    rw [hm, run_to_raw hunit]
    refine ⟨rfl,rfl,rfl,?_,?_⟩
    · by_cases h2 : command = 2
      · simp [content, h2]
      · simp [content, h2]
    · by_cases h2 : command = 2
      · simp [h2]
      · simp [h2]
  | case8 s hm h command hc hb content rest h0 r ih =>
    have h0' : command = 0 := not_not.mp h0
    have hunit : (visionScanner s.uuid).step .padding s.pending = some (.padding, rest,
        (blockBytes s.pending).map .byte) := by
      have hunit' : visionUnit s.uuid .padding s.pending = some (.padding, rest,
          (blockBytes s.pending).map .byte ++ if command = 2 then [.direct] else []) := by
        rw [visionUnit, if_neg h, if_neg hc, if_neg hb, if_pos h0']
      rwa [h0', if_neg (by decide), List.append_nil] at hunit'
    obtain ⟨uuid,pending,mode⟩ := s
    subst hm
    obtain ⟨huuid,hmode,hpending,hbytes,hdirect⟩ := ih
    rw [Scanner.run_unit hunit]
    refine ⟨huuid,hmode,hpending,?_,?_⟩
    · have hcontent : VisionPushResult.bytes ⟨content ++ r.2.chunks, r.2.direct⟩ =
          blockBytes pending ++ r.2.bytes := by simp [content]
      rw [hcontent, emitBytes_append, emitBytes_map]
      exact congrArg _ hbytes
    · simpa using hdirect
  | case9 s hm =>
    rw [hm, run_raw]
    exact ⟨rfl,rfl,rfl,by simp,by simp⟩

/-- The same state, the same chunks and the same report; one may borrow where the other
copies. -/
structure SameResult (r r' : VisionUnpaddingState × VisionPushResult) : Prop where
  state : r.1 = r'.1
  chunks : r.2.chunks.map VisionChunk.asRef = r'.2.chunks.map VisionChunk.asRef
  direct : r.2.direct = r'.2.direct

theorem SameResult.bytes {r r' : VisionUnpaddingState × VisionPushResult}
    (h : SameResult r r') : r.2.bytes = r'.2.bytes := by
  have hflat := congrArg List.flatten h.chunks
  simpa [VisionPushResult.bytes, List.flatMap_def] using hflat

theorem directLoop_same (uuid : Uuid) (input : Bytes) :
    SameResult (VisionUnpaddingState.directLoop ⟨uuid,[],.padding⟩ input)
      (VisionUnpaddingState.pushLoop ⟨uuid,input,.padding⟩) := by
  fun_induction VisionUnpaddingState.directLoop ⟨uuid,[],.padding⟩ input with
  | case1 =>
    rw [VisionUnpaddingState.pushLoop]
    exact ⟨rfl,rfl,rfl⟩
  | case2 input hne h5 =>
    rw [VisionUnpaddingState.pushLoop]
    simp only [dif_pos h5]
    exact ⟨rfl,rfl,rfl⟩
  | case3 input hne h5 command hc =>
    rw [VisionUnpaddingState.pushLoop]
    simp only [dif_neg h5]
    rw [if_pos hc]
    exact ⟨rfl,rfl,rfl⟩
  | case4 input hne h5 command hc hb =>
    rw [VisionUnpaddingState.pushLoop]
    simp only [dif_neg h5, dif_pos hb]
    rw [if_neg hc]
    exact ⟨rfl,rfl,rfl⟩
  | case5 input hne h5 command hc hb content rest h0 =>
    rw [VisionUnpaddingState.pushLoop]
    simp only [dif_neg h5, dif_neg hb]
    rw [if_neg hc, if_pos h0]
    exact ⟨rfl,by simp [content, rest],rfl⟩
  | case6 input hne h5 command hc hb content rest h0 r ih =>
    rw [VisionUnpaddingState.pushLoop]
    simp only [dif_neg h5, dif_neg hb]
    rw [if_neg hc, if_neg h0]
    exact ⟨ih.state,by simpa [content, rest] using ih.chunks,ih.direct⟩

/-- The path that copies nothing agrees with the buffered one. -/
theorem pushWithoutPending_same (uuid : Uuid) (mode : VisionUnpaddingMode)
    (hmode : mode ≠ .raw) (data : Bytes) :
    SameResult (VisionUnpaddingState.pushWithoutPending ⟨uuid,[],mode⟩ data)
      (VisionUnpaddingState.pushBuffered ⟨uuid,[],mode⟩ data) := by
  unfold VisionUnpaddingState.pushWithoutPending VisionUnpaddingState.pushBuffered
  cases mode with
  | raw => exact absurd rfl hmode
  | padding => exact directLoop_same uuid data
  | unknown =>
    rw [if_pos rfl, VisionUnpaddingState.pushLoop]
    simp only [List.nil_append]
    by_cases h : data.length < 16
    · simp only [if_pos h, dif_pos h]
      exact ⟨rfl,rfl,rfl⟩
    · simp only [if_neg h, dif_neg h]
      by_cases hu : data.take 16 = uuid.toList
      · simp only [if_pos hu]
        exact directLoop_same uuid (data.drop 16)
      · simp only [if_neg hu]
        exact ⟨rfl,rfl,rfl⟩

/-- Between pushes nothing is pending in raw mode. -/
def Valid (s : VisionUnpaddingState) : Prop := s.mode = .raw → s.pending = []

theorem new_valid (uuid : Uuid) : Valid (VisionUnpaddingState.new uuid) := nofun

/-- Every push takes the units of what was pending and the new data. -/
theorem push_agrees {s : VisionUnpaddingState} (hs : Valid s) (data : Bytes) :
    Agrees s.uuid (s.push data) ((visionScanner s.uuid).run s.mode (s.pending ++ data)) := by
  obtain ⟨uuid,pending,mode⟩ := s
  unfold VisionUnpaddingState.push
  by_cases hraw : mode = .raw
  · obtain rfl : pending = [] := hs hraw
    subst hraw
    rw [if_pos rfl, List.nil_append, run_raw]
    exact ⟨rfl,rfl,rfl,by simp [VisionPushResult.bytes, VisionChunk.asRef],by simp⟩
  · rw [if_neg hraw]
    have hslow := pushLoop_agrees ⟨uuid,pending ++ data,mode⟩
    by_cases hp : pending = []
    · subst hp
      rw [if_pos rfl]
      have hsame := pushWithoutPending_same uuid mode hraw data
      obtain ⟨huuid,hmode,hpending,hbytes,hdirect⟩ := hslow
      exact ⟨hsame.state ▸ huuid,hsame.state ▸ hmode,hsame.state ▸ hpending,
        hsame.bytes.trans hbytes,hsame.direct.trans hdirect⟩
    · rw [if_neg hp]
      exact hslow

/-! ## Segmentation -/

/-- A scanner's outcome, as a state with the bytes and the report of the pushes. -/
def outcome (uuid : Uuid) (r : (VisionUnpaddingMode × Bytes) × List Emit) :
    VisionUnpaddingState × Bytes × Bool :=
  (⟨uuid, r.1.2, r.1.1⟩, emitBytes r.2, decide (Emit.direct ∈ r.2))

theorem push_outcome {s : VisionUnpaddingState} (hs : Valid s) (data : Bytes) :
    ((s.push data).1, (s.push data).2.bytes, (s.push data).2.direct) =
      outcome s.uuid ((visionScanner s.uuid).push (s.mode, s.pending) data) := by
  obtain ⟨huuid,hmode,hpending,hbytes,hdirect⟩ := push_agrees hs data
  have hstate : (s.push data).1 =
      ⟨(s.push data).1.uuid,(s.push data).1.pending,(s.push data).1.mode⟩ := rfl
  rw [hstate, huuid, hmode, hpending, hbytes, hdirect]
  rfl

theorem push_valid {s : VisionUnpaddingState} (hs : Valid s) (data : Bytes) :
    Valid (s.push data).1 := by
  obtain ⟨_,hmode,hpending,_,_⟩ := push_agrees hs data
  have hsettled := (visionScanner s.uuid).run_settled s.mode (s.pending ++ data)
  rw [← hmode, ← hpending] at hsettled
  intro hraw
  rw [hraw] at hsettled
  cases hp : (s.push data).1.pending with
  | nil => rfl
  | cons b bs => rw [hp] at hsettled; cases hsettled

theorem pushAll_outcome {s : VisionUnpaddingState} (hs : Valid s) (pieces : List Bytes) :
    s.pushAll pieces =
      outcome s.uuid ((visionScanner s.uuid).pushAll (s.mode, s.pending) pieces) := by
  induction pieces generalizing s with
  | nil => rfl
  | cons data more ih =>
    have hpush := push_outcome hs data
    have hnext := ih (push_valid hs data)
    obtain ⟨hstate,hrest⟩ := Prod.mk.inj hpush
    obtain ⟨hbytes,hdirect⟩ := Prod.mk.inj hrest
    rw [hstate] at hnext
    simp only [VisionUnpaddingState.pushAll, Scanner.pushAll, hstate, hbytes, hdirect, hnext]
    simp [outcome]

/-- However the input is cut, pushing the pieces gives the bytes, the mode, the pending
bytes and the report of one push of the whole; and the path that copies nothing agrees
with the buffered one wherever it is taken. -/
theorem vision_unpadding_segmentation (uuid : Uuid) :
    (∀ pieces : List Bytes, (VisionUnpaddingState.new uuid).pushAll pieces =
      let r := (VisionUnpaddingState.new uuid).push pieces.flatten
      (r.1, r.2.bytes, r.2.direct)) ∧
    ∀ mode, mode ≠ .raw → ∀ data,
      SameResult (VisionUnpaddingState.pushWithoutPending ⟨uuid,[],mode⟩ data)
        (VisionUnpaddingState.pushBuffered ⟨uuid,[],mode⟩ data) := by
  refine ⟨?_,fun mode hmode data => pushWithoutPending_same uuid mode hmode data⟩
  intro pieces
  have hwait : (visionScanner uuid).step .unknown [] = none := rfl
  rw [pushAll_outcome (new_valid uuid), push_outcome (new_valid uuid)]
  exact congrArg _ ((visionScanner uuid).pushAll_flatten (.unknown,[]) hwait pieces)

theorem vision_unpadding_segmentation_block :
    (VisionUnpaddingState.new (Vector.replicate 16 7)).pushAll
      [List.replicate 10 7, List.replicate 6 7 ++ [0, 0], [1, 0, 1, 65, 0, 2, 0, 1], [0, 0, 66, 67]] =
      (⟨Vector.replicate 16 7, [], .raw⟩, [65, 66, 67], true) ∧
    SameResult
      (VisionUnpaddingState.pushWithoutPending ⟨Vector.replicate 16 7,[],.padding⟩ [0, 0, 1, 0, 0, 65, 2])
      (VisionUnpaddingState.pushBuffered ⟨Vector.replicate 16 7,[],.padding⟩ [0, 0, 1, 0, 0, 65, 2]) := by
  obtain ⟨hcut,hsame⟩ := vision_unpadding_segmentation (Vector.replicate 16 7)
  refine ⟨?_,hsame .padding (by decide) _⟩
  rw [hcut]
  decide +kernel

end AtlasKernel.Vless
