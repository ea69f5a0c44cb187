import AtlasKernel.Vless.VisionDirect
import Mathlib.Data.List.Infix

/-! What the Vision downlink keeps back: the bytes whose meaning is settled by what has been
received, and the bytes the bridge has delivered by then. Source: `adapter/vless.rs`. -/
namespace AtlasKernel.Vless
open AtlasKernel.Lib

/-- What is content in a stream of blocks, as far as it was received: all of it where the
command is none, the content of a block as far as it is there, and everything behind the
last block. -/
def contentOfBlocks (buf : Bytes) : Bytes :=
  if buf = [] then []
  else if 2 < buf.getD 0 0 then buf
  else if _h : buf.length < 5 then []
  else if buf.length < blockLen buf then blockBytes buf
  else blockBytes buf ++ if buf.getD 0 0 = 0 then contentOfBlocks (buf.drop (blockLen buf))
    else buf.drop (blockLen buf)
termination_by buf.length
decreasing_by
  simp [blockLen]; omega

/-- What is content in the stream: nothing of the UUID, and everything if it is missing. -/
def contentOf (uuid : Uuid) (received : Bytes) : Bytes :=
  if uuid.toList <+: received then contentOfBlocks (received.drop 16)
  else if received <+: uuid.toList then []
  else received

/-- What is written to the local side by the end of some reads. -/
def delivered (uuid : Uuid) (reads : List Bytes) : Bytes :=
  ((downlinkReads (.new uuid) reads).flatMap Read.delivered).flatten

def downlinkAfter (uuid : Uuid) (reads : List Bytes) : VisionUnpaddingState :=
  ((VisionUnpaddingState.new uuid).pushAll reads).1

/-! ## Where reads may end -/

/-- Blocks, and behind them nothing that could be handed out. -/
inductive BlockCut : Bytes → Prop where
  | short {buf} : buf.length < 5 → (∀ command ∈ buf.head?, ¬ 2 < command) → BlockCut buf
  | header {buf} : 5 ≤ buf.length → ¬ 2 < buf.getD 0 0 → buf.length < blockLen buf →
      (buf.length = 5 ∨ contentLen buf = 0) → BlockCut buf
  | block {buf} : 5 ≤ buf.length → blockLen buf ≤ buf.length → buf.getD 0 0 = 0 →
      BlockCut (buf.drop (blockLen buf)) → BlockCut buf
  | last {buf} : 5 ≤ buf.length → blockLen buf ≤ buf.length → ¬ 2 < buf.getD 0 0 →
      buf.getD 0 0 ≠ 0 → BlockCut buf
  | noBlock {buf} : 5 ≤ buf.length → 2 < buf.getD 0 0 → BlockCut buf

/-- A beginning of the UUID, or sixteen other bytes, or the UUID and blocks. -/
def StreamCut (uuid : Uuid) (received : Bytes) : Prop :=
  received.length < 16 ∧ received <+: uuid.toList ∨
  16 ≤ received.length ∧ ¬ uuid.toList <+: received ∨
  ∃ blocks, received = uuid.toList ++ blocks ∧ BlockCut blocks

/-! ## The delivered bytes -/

theorem downlinkReads_delivered (s : VisionUnpaddingState) (reads : List Bytes) :
    ((downlinkReads s reads).flatMap Read.delivered).flatten = (s.pushAll reads).2.1 := by
  induction reads generalizing s with
  | nil => rfl
  | cons data reads ih =>
    rw [downlinkReads, List.flatMap_cons, List.flatten_append, ih, VisionUnpaddingState.pushAll]
    simp [writeDownlink, VisionPushResult.bytes, List.flatMap_def]

/-- The reads are one run of the units. -/
theorem downlink_run (uuid : Uuid) (reads : List Bytes) :
    delivered uuid reads = emitBytes ((visionScanner uuid).run .unknown reads.flatten).2.2 ∧
      (downlinkAfter uuid reads).mode = ((visionScanner uuid).run .unknown reads.flatten).1 ∧
      (downlinkAfter uuid reads).pending =
        ((visionScanner uuid).run .unknown reads.flatten).2.1 := by
  have hwait : (visionScanner uuid).step .unknown [] = none := rfl
  have hflat := (visionScanner uuid).pushAll_flatten (.unknown,[]) hwait reads
  have hall := pushAll_outcome (new_valid uuid) reads
  simp only [VisionUnpaddingState.new, outcome, hflat, Scanner.push, List.nil_append] at hall
  rw [delivered, downlinkReads_delivered, downlinkAfter, VisionUnpaddingState.new, hall]
  exact ⟨rfl,rfl,rfl⟩

theorem blockBytes_nil_iff {buf : Bytes} (h5 : 5 ≤ buf.length) :
    blockBytes buf = [] ↔ buf.length = 5 ∨ contentLen buf = 0 := by
  rw [← List.length_eq_zero_iff, blockBytes, List.length_drop, List.length_take]
  omega

theorem contentOfBlocks_whole {buf : Bytes} (h5 : 5 ≤ buf.length) (hcmd : ¬ 2 < buf.getD 0 0)
    (hwhole : blockLen buf ≤ buf.length) :
    contentOfBlocks buf = blockBytes buf ++
      if buf.getD 0 0 = 0 then contentOfBlocks (buf.drop (blockLen buf))
      else buf.drop (blockLen buf) := by
  have hne : buf ≠ [] := List.ne_nil_of_length_pos (by omega)
  rw [contentOfBlocks, if_neg hne, if_neg hcmd, dif_neg (by omega), if_neg (by omega)]

/-- A command that is none hands everything out, once a header is there. -/
theorem run_noBlock_iff (uuid : Uuid) {buf : Bytes} (hcmd : 2 < buf.getD 0 0) :
    emitBytes ((visionScanner uuid).run .padding buf).2.2 = buf ↔ 5 ≤ buf.length := by
  by_cases h5 : buf.length < 5
  · have hwait : visionUnit uuid .padding buf = none := by rw [visionUnit, if_pos h5]
    rw [Scanner.run_wait hwait]
    apply iff_of_false
    · intro h
      simp [← h] at hcmd
    · omega
  · have hunit : visionUnit uuid .padding buf = some (.raw, buf, []) := by
      rw [visionUnit, if_neg h5, if_pos hcmd]
    rw [run_to_raw hunit]
    apply iff_of_true
    · simp
    · omega

theorem blockCut_noBlock_iff {buf : Bytes} (hcmd : 2 < buf.getD 0 0) :
    BlockCut buf ↔ 5 ≤ buf.length := by
  constructor
  · intro hcut
    cases hcut with
    | short h5 hhead =>
      cases buf with
      | nil => simp at hcmd
      | cons command rest => exact absurd hcmd (hhead command rfl)
    | header h5 => exact h5
    | block h5 => exact h5
    | last h5 => exact h5
    | noBlock h5 => exact h5
  · intro h5
    exact .noBlock h5 hcmd

theorem blockCut_part_iff {buf : Bytes} (h5 : 5 ≤ buf.length) (hcmd : ¬ 2 < buf.getD 0 0)
    (hpart : buf.length < blockLen buf) :
    BlockCut buf ↔ buf.length = 5 ∨ contentLen buf = 0 := by
  constructor
  · intro hcut
    cases hcut with
    | short hshort => omega
    | header _ _ _ hempty => exact hempty
    | block _ hblock => omega
    | last _ hblock => omega
    | noBlock _ hnone => exact absurd hnone hcmd
  · exact .header h5 hcmd hpart

theorem blockCut_whole_iff {buf : Bytes} (h5 : 5 ≤ buf.length)
    (hwhole : blockLen buf ≤ buf.length) (hzero : buf.getD 0 0 = 0) :
    BlockCut buf ↔ BlockCut (buf.drop (blockLen buf)) := by
  constructor
  · intro hcut
    cases hcut with
    | short hshort => omega
    | header _ _ hpart => omega
    | block _ _ _ hrest => exact hrest
    | last _ _ _ hlast => exact absurd hzero hlast
    | noBlock _ hnone =>
      rw [hzero] at hnone
      exact absurd hnone (by decide)
  · exact .block h5 hwhole hzero

/-- Among blocks, all content is handed out exactly where the reads may end. -/
theorem run_blocks_iff (uuid : Uuid) (buf : Bytes) :
    emitBytes ((visionScanner uuid).run .padding buf).2.2 = contentOfBlocks buf ↔ BlockCut buf := by
  induction buf using contentOfBlocks.induct with
  | case1 =>
    rw [Scanner.run_wait rfl, contentOfBlocks]
    exact iff_of_true rfl (.short (by decide) (fun _ h => by cases h))
  | case2 buf hne hcmd =>
    rw [contentOfBlocks, if_neg hne, if_pos hcmd, run_noBlock_iff uuid hcmd,
      blockCut_noBlock_iff hcmd]
  | case3 buf hne hcmd hshort =>
    have hwait : visionUnit uuid .padding buf = none := by rw [visionUnit, if_pos hshort]
    rw [contentOfBlocks, if_neg hne, if_neg hcmd, dif_pos hshort, Scanner.run_wait hwait]
    apply iff_of_true rfl
    apply BlockCut.short hshort
    intro command hhead
    cases buf with
    | nil => cases hhead
    | cons first rest =>
      cases hhead
      exact hcmd
  | case4 buf hne hcmd hlen hpart =>
    have hwait : visionUnit uuid .padding buf = none := by
      rw [visionUnit, if_neg hlen, if_neg hcmd, if_pos hpart]
    have h5 : 5 ≤ buf.length := by omega
    rw [contentOfBlocks, if_neg hne, if_neg hcmd, dif_neg hlen, if_pos hpart,
      Scanner.run_wait hwait, blockCut_part_iff h5 hcmd hpart, ← blockBytes_nil_iff h5]
    exact eq_comm
  | case5 buf hne hcmd hlen hwhole ih =>
    have h5 : 5 ≤ buf.length := by omega
    have hblock : blockLen buf ≤ buf.length := by omega
    have hunit := block_run uuid h5 hblock hcmd
    rw [contentOfBlocks_whole h5 hcmd hblock]
    by_cases hzero : buf.getD 0 0 = 0
    · rw [if_pos hzero, hzero, if_neg (by decide), List.append_nil] at hunit
      rw [Scanner.run_unit hunit, if_pos hzero, blockCut_whole_iff h5 hblock hzero, ← ih]
      simp
    · rw [if_neg hzero] at hunit
      rw [run_to_raw hunit, if_neg hzero, emitBytes_append, emitBytes_append, emitBytes_map,
        emitBytes_map]
      apply iff_of_true
      · by_cases htwo : buf.getD 0 0 = 2
        · rw [if_pos htwo]
          simp
        · rw [if_neg htwo]
          simp
      · exact .last h5 hblock hcmd hzero

/-- All content of the stream is handed out exactly where the reads may end. -/
theorem run_stream_iff (uuid : Uuid) (received : Bytes) :
    emitBytes ((visionScanner uuid).run .unknown received).2.2 = contentOf uuid received ↔
      StreamCut uuid received := by
  have hlen : uuid.toList.length = 16 := uuid.length_toList
  by_cases h16 : received.length < 16
  · have hwait : visionUnit uuid .unknown received = none := by rw [visionUnit, if_pos h16]
    have hnot : ¬ uuid.toList <+: received := by
      intro h
      have := h.length_le
      omega
    rw [Scanner.run_wait hwait, contentOf, if_neg hnot]
    by_cases hpre : received <+: uuid.toList
    · rw [if_pos hpre]
      exact iff_of_true rfl (.inl ⟨h16,hpre⟩)
    · rw [if_neg hpre]
      apply iff_of_false
      · intro h
        rw [emitBytes_nil] at h
        exact hpre (h ▸ List.nil_prefix)
      · rintro (⟨-,h⟩ | ⟨h,-⟩ | ⟨blocks,rfl,-⟩)
        · exact hpre h
        · omega
        · exact hnot (List.prefix_append ..)
  · by_cases htake : received.take 16 = uuid.toList
    · have huuid : uuid.toList <+: received := htake ▸ List.take_prefix 16 received
      have hunit : visionUnit uuid .unknown received = some (.padding, received.drop 16, []) := by
        rw [visionUnit, if_neg h16, if_pos htake]
      rw [Scanner.run_unit hunit, contentOf, if_pos huuid, List.nil_append, run_blocks_iff]
      constructor
      · intro hcut
        refine .inr (.inr ⟨received.drop 16,?_,hcut⟩)
        rw [← htake, List.take_append_drop]
      · rintro (⟨h,-⟩ | ⟨-,h⟩ | ⟨blocks,rfl,hcut⟩)
        · omega
        · exact absurd huuid h
        · rwa [List.drop_left' hlen]
    · have hnot : ¬ uuid.toList <+: received := by
        intro h
        rw [List.prefix_iff_eq_take, hlen] at h
        exact htake h.symm
      have hpre : ¬ received <+: uuid.toList := by
        intro h
        have hle := h.length_le
        have heq := h.eq_of_length (by omega)
        exact hnot (heq ▸ List.prefix_refl received)
      have hunit : visionUnit uuid .unknown received = some (.raw, received, []) := by
        rw [visionUnit, if_neg h16, if_neg htake]
      rw [run_to_raw hunit, contentOf, if_neg hnot, if_neg hpre]
      apply iff_of_true
      · simp
      · exact .inr (.inl ⟨by omega,hnot⟩)

/-! ## What is content stays content -/

theorem blockBytes_prefix {buf : Bytes} (h5 : 5 ≤ buf.length) (more : Bytes) :
    blockBytes buf <+: blockBytes (buf ++ more) := by
  have hpre : buf <+: buf ++ more := List.prefix_append buf more
  rw [blockBytes, blockBytes, (blockLen_append h5 more).2]
  exact (List.IsPrefix.take hpre _).drop 5

/-- What is content by now is content whatever follows. -/
theorem contentOfBlocks_append (buf more : Bytes) :
    contentOfBlocks buf <+: contentOfBlocks (buf ++ more) := by
  induction buf using contentOfBlocks.induct with
  | case1 =>
    rw [contentOfBlocks]
    exact List.nil_prefix
  | case2 buf hne hcmd =>
    have hhead : (buf ++ more).getD 0 0 = buf.getD 0 0 :=
      getD_append_left (List.length_pos_iff.mpr hne) more
    have hmore : buf ++ more ≠ [] := by simp [hne]
    rw [contentOfBlocks, if_neg hne, if_pos hcmd, contentOfBlocks, if_neg hmore, hhead,
      if_pos hcmd]
    exact List.prefix_append ..
  | case3 buf hne hcmd hshort =>
    rw [contentOfBlocks, if_neg hne, if_neg hcmd, dif_pos hshort]
    exact List.nil_prefix
  | case4 buf hne hcmd hlen hpart =>
    have h5 : 5 ≤ buf.length := by omega
    have hhead : (buf ++ more).getD 0 0 = buf.getD 0 0 := getD_append_left (by omega) more
    have hmore : buf ++ more ≠ [] := by simp [hne]
    have hlong : ¬ (buf ++ more).length < 5 := by simp; omega
    have hbytes := blockBytes_prefix h5 more
    rw [contentOfBlocks, if_neg hne, if_neg hcmd, dif_neg hlen, if_pos hpart, contentOfBlocks,
      if_neg hmore, hhead, if_neg hcmd, dif_neg hlong]
    split
    · exact hbytes
    · exact hbytes.trans (List.prefix_append ..)
  | case5 buf hne hcmd hlen hwhole ih =>
    have h5 : 5 ≤ buf.length := by omega
    have hhead : (buf ++ more).getD 0 0 = buf.getD 0 0 := getD_append_left (by omega) more
    have hlong : 5 ≤ (buf ++ more).length := by simp; omega
    have hcmd' : ¬ 2 < (buf ++ more).getD 0 0 := by rwa [hhead]
    have hblock : blockLen (buf ++ more) = blockLen buf := (blockLen_append h5 more).1
    have hwhole' : blockLen (buf ++ more) ≤ (buf ++ more).length := by
      rw [hblock, List.length_append]
      omega
    have hdrop : (buf ++ more).drop (blockLen buf) = buf.drop (blockLen buf) ++ more :=
      List.drop_append_of_le_length (by omega)
    rw [contentOfBlocks_whole h5 hcmd (by omega), contentOfBlocks_whole hlong hcmd' hwhole', hhead,
      hblock, blockBytes_append h5 (by omega), hdrop, List.prefix_append_right_inj]
    split
    · exact ih
    · exact List.prefix_append ..

theorem contentOf_append (uuid : Uuid) (received more : Bytes) :
    contentOf uuid received <+: contentOf uuid (received ++ more) := by
  have hlen : uuid.toList.length = 16 := uuid.length_toList
  by_cases huuid : uuid.toList <+: received
  · obtain ⟨blocks,rfl⟩ := huuid
    rw [contentOf, if_pos (List.prefix_append ..), contentOf, List.append_assoc,
      if_pos (List.prefix_append ..), List.drop_left' hlen, List.drop_left' hlen]
    exact contentOfBlocks_append blocks more
  · by_cases hpre : received <+: uuid.toList
    · rw [contentOf, if_neg huuid, if_pos hpre]
      exact List.nil_prefix
    · have hreceived : received <+: received ++ more := List.prefix_append received more
      have huuid' : ¬ uuid.toList <+: received ++ more := by
        intro h
        obtain h | h := List.prefix_or_prefix_of_prefix h hreceived
        · exact huuid h
        · exact hpre h
      have hpre' : ¬ received ++ more <+: uuid.toList := fun h => hpre (hreceived.trans h)
      rw [contentOf, if_neg huuid, if_neg hpre, contentOf, if_neg huuid', if_neg hpre']
      exact hreceived

/-! ## After every read -/

theorem run_decided (uuid : Uuid) {mode : VisionUnpaddingMode} (hmode : mode ≠ .unknown)
    (buf : Bytes) : ((visionScanner uuid).run mode buf).1 ≠ .unknown := by
  induction mode, buf using Scanner.run.induct (visionScanner uuid) with
  | case1 mode buf hwait =>
    rw [Scanner.run_wait hwait]
    exact hmode
  | case2 mode buf mode' rest out hunit ih =>
    have hunit' : visionUnit uuid mode buf = some (mode', rest, out) := hunit
    rw [Scanner.run_unit hunit]
    apply ih
    cases mode with
    | unknown => exact absurd rfl hmode
    | padding =>
      obtain ⟨rfl,-⟩ | ⟨-,-,-,rfl,-⟩ := padding_unit_cases hunit'
      · simp
      · split <;> simp
    | raw =>
      cases buf with
      | nil => cases hunit'
      | cons b bs =>
        cases hunit'
        simp

/-- Nothing is decided before sixteen bytes are there. -/
theorem run_undecided (uuid : Uuid) {received : Bytes} (h16 : received.length < 16) :
    (visionScanner uuid).run .unknown received = (.unknown, received, []) := by
  have hwait : visionUnit uuid .unknown received = none := by rw [visionUnit, if_pos h16]
  exact Scanner.run_wait hwait

theorem run_unknown_iff (uuid : Uuid) (received : Bytes) :
    ((visionScanner uuid).run .unknown received).1 = .unknown ↔ received.length < 16 := by
  by_cases h16 : received.length < 16
  · rw [run_undecided uuid h16]
    simp [h16]
  · apply iff_of_false
    · by_cases htake : received.take 16 = uuid.toList
      · have hunit : visionUnit uuid .unknown received =
            some (.padding, received.drop 16, []) := by rw [visionUnit, if_neg h16, if_pos htake]
        rw [Scanner.run_unit hunit]
        exact run_decided uuid (by simp) _
      · have hunit : visionUnit uuid .unknown received = some (.raw, received, []) := by
          rw [visionUnit, if_neg h16, if_neg htake]
        rw [run_to_raw hunit]
        simp
    · exact h16

theorem undecided_iff (uuid : Uuid) (before : List Bytes) :
    ((downlinkAfter uuid before).mode = .unknown →
      (downlinkAfter uuid before).pending <+: uuid.toList ∧
        (downlinkAfter uuid before).pending ≠ uuid.toList) ↔
      (before.flatten.length < 16 → before.flatten <+: uuid.toList) := by
  obtain ⟨-,hmode,hpending⟩ := downlink_run uuid before
  rw [hmode, hpending, run_unknown_iff]
  constructor
  · intro h h16
    have hpre := (h h16).1
    rwa [run_undecided uuid h16] at hpre
  · intro h h16
    rw [run_undecided uuid h16]
    refine ⟨h h16,?_⟩
    intro heq
    have hlen : before.flatten.length = 16 := by rw [← uuid.length_toList, ← heq]
    omega

/-- A stream that is not the user's has been passed on at its end, unless it ended before
the decision. -/
theorem unmatched_iff (uuid : Uuid) (reads : List Bytes) :
    (¬ uuid.toList <+: reads.flatten → delivered uuid reads = reads.flatten) ↔
      reads.flatten = [] ∨ 16 ≤ reads.flatten.length := by
  have hlen : uuid.toList.length = 16 := uuid.length_toList
  rw [(downlink_run uuid reads).1]
  by_cases h16 : reads.flatten.length < 16
  · have hnot : ¬ uuid.toList <+: reads.flatten := by
      intro h
      have := h.length_le
      omega
    rw [run_undecided uuid h16]
    constructor
    · intro h
      exact .inl (h hnot).symm
    · rintro (h | h)
      · intro _
        exact h.symm
      · omega
  · apply iff_of_true
    · intro hnot
      have htake : ¬ reads.flatten.take 16 = uuid.toList := fun h =>
        hnot (h ▸ List.take_prefix 16 reads.flatten)
      have hunit : visionUnit uuid .unknown reads.flatten =
          some (.raw, reads.flatten, []) := by rw [visionUnit, if_neg h16, if_neg htake]
      rw [run_to_raw hunit, List.nil_append, emitBytes_map]
    · omega

/-- For every downlink behind the response header: while nothing is decided, what is kept is
a proper beginning of the UUID exactly if no read ends below sixteen other bytes; a stream
without the UUID has been passed on at its end exactly if it does not end below sixteen bytes;
and all content has been delivered after each read exactly if the reads end where nothing is
kept back. -/
theorem downlink_undelayed_iff (uuid : Uuid) (head : ResponseHead) (remotes : List LocalRead) :
    let reads := head.unpadded (remotes.map (·.1))
    ((∀ before, before <+: reads → (downlinkAfter uuid before).mode = .unknown →
        (downlinkAfter uuid before).pending <+: uuid.toList ∧
          (downlinkAfter uuid before).pending ≠ uuid.toList) ↔
      ∀ before, before <+: reads → before.flatten.length < 16 →
        before.flatten <+: uuid.toList) ∧
    ((¬ uuid.toList <+: reads.flatten → delivered uuid reads = reads.flatten) ↔
      reads.flatten = [] ∨ 16 ≤ reads.flatten.length) ∧
    ((∀ before, before <+: reads → delivered uuid before = contentOf uuid before.flatten) ↔
      ∀ before, before <+: reads → StreamCut uuid before.flatten) := by
  intro reads
  refine ⟨?_,unmatched_iff uuid reads,?_⟩
  · apply forall_congr'
    intro before
    rw [undecided_iff]
  · apply forall_congr'
    intro before
    rw [(downlink_run uuid before).1, run_stream_iff]

/-- A reply of one byte, which the UUID does not start with: it is kept, and lost at the end. -/
theorem short_reply_kept :
    let uuid : Uuid := Vector.replicate 16 7
    let reads := (ResponseHead.header ⟨[], by decide⟩).unpadded [[0x48]]
    ¬ ((downlinkAfter uuid reads).mode = .unknown →
      (downlinkAfter uuid reads).pending <+: uuid.toList) ∧
    ¬ (¬ uuid.toList <+: reads.flatten → delivered uuid reads = reads.flatten) := by
  decide

end AtlasKernel.Vless
