import AtlasKernel.H2.DataFrames
import AtlasKernel.Lib.ReadCuts
import AtlasKernel.Xhttp.PacketUp

/-! The batches of the packet-up upload: what the local side says within a window goes out
in one POST. Source: `read_xhttp_post_batch` in `adapter/shadowsocks/transport.rs`. -/
namespace AtlasKernel.Xhttp
open AtlasKernel.Lib AtlasKernel.H2

/-- The local side, and for each turn of a `select!` whether the window ends there. -/
structure BatchUpload where
  source : Source UInt8
  windows : List Bool
deriving DecidableEq, Repr

/-- `upload.read_buf(&mut payload).await` with so much room in the buffer -/
def awaitRead (room : Nat) (src : Source UInt8) : IoResult Bytes × Source UInt8 :=
  match _h : pollRead room src with
  | (.pending, src') => awaitRead room src'
  | (.ready r, src') => (r, src')
termination_by sourceSize src
decreasing_by
  rw [pollRead_pending _h]
  exact sourceSize_pending

/-- `while payload.len() < post_limit`: the window ends, or what has been read is kept. -/
def fillBatch (postLimit : Nat) (payload : Bytes) (s : BatchUpload) : IoResult Bytes × BatchUpload :=
  if payload.length < postLimit then
    if s.windows.head? = some true then (.ok payload, { s with windows := s.windows.tail })
    else
      match _h : pollRead (postLimit - payload.length) s.source with
      | (.pending, src) => fillBatch postLimit payload ⟨src, s.windows.tail⟩
      | (.ready (.error err), src) => (.error err, ⟨src, s.windows.tail⟩)
      | (.ready (.ok filled), src) =>
        if _hp : filled = [] then (.ok payload, ⟨src, s.windows.tail⟩)
        else fillBatch postLimit (payload ++ filled) ⟨src, s.windows.tail⟩
  else (.ok payload, s)
termination_by sourceSize s.source
decreasing_by
  · rw [pollRead_pending _h]
    exact sourceSize_pending
  · exact sourceSize_pollRead _h _hp

def readXhttpPostBatch (maxPostBytes : Nat) (s : BatchUpload) :
    IoResult (Option Bytes) × BatchUpload :=
  match awaitRead (postLimit maxPostBytes) s.source with
  | (.error err, src) => (.error err, { s with source := src })
  | (.ok first, src) =>
    if first = [] then (.ok none, { s with source := src })
    else
      match fillBatch (postLimit maxPostBytes) first { s with source := src } with
      | (.error err, s) => (.error err, s)
      | (.ok payload, s) => (.ok (some payload), s)

/-- At most so many calls, one after the other until there is no batch any more. -/
def readXhttpPostBatches (maxPostBytes : Nat) : Nat → BatchUpload → List Bytes × BatchUpload
  | 0, s => ([], s)
  | n+1, s =>
    match readXhttpPostBatch maxPostBytes s with
    | (.ok (some batch), s) =>
      let r := readXhttpPostBatches maxPostBytes n s
      (batch :: r.1, r.2)
    | (_, s) => ([], s)

/-! ## Nothing is lost -/

theorem awaitRead_ok {room : Nat} {src : Source UInt8} (h : Flawless src) (hroom : 0 < room) :
    ∃ first src', awaitRead room src = (.ok first, src') ∧ Flawless src' ∧
      sourceBytes src = first ++ sourceBytes src' ∧ first.length ≤ room ∧
      (first = [] → sourceBytes src = []) ∧ (first ≠ [] → sourceSize src' < sourceSize src) := by
  fun_induction awaitRead room src with
  | case1 src src' hr ih =>
    rw [pollRead_pending hr]
    obtain ⟨first,rest,hread,hflaw,hbytes,hlen,hend,hsize⟩ := ih (h.read hr).1
    exact ⟨first,rest,hread,hflaw,hbytes,hlen,hend,
      fun hne => (hsize hne).trans sourceSize_pending⟩
  | case2 src r src' hr =>
    obtain ⟨hflaw,hno⟩ := h.read hr
    cases r with
    | error err => exact absurd rfl (hno err)
    | ok first =>
      obtain ⟨hbytes,hlen,_,hend⟩ := pollRead_ok hr
      refine ⟨first,src',rfl,hflaw,hbytes,hlen,fun hempty => ?_,sourceSize_pollRead hr⟩
      obtain ⟨_,hnil | hzero⟩ := hend hempty
      · rw [hnil, sourceBytes_nil]
      · omega

theorem fillBatch_ok {limit : Nat} {payload : Bytes} {s : BatchUpload} (h : Flawless s.source)
    (hlen : payload.length ≤ limit) :
    ∃ filled s', fillBatch limit payload s = (.ok (payload ++ filled), s') ∧ Flawless s'.source ∧
      sourceBytes s.source = filled ++ sourceBytes s'.source ∧
      (payload ++ filled).length ≤ limit ∧ sourceSize s'.source ≤ sourceSize s.source := by
  fun_induction fillBatch limit payload s with
  | case1 payload s hlt hwindow =>
    refine ⟨[],{ s with windows := s.windows.tail },?_,h,rfl,by simpa using hlen,Nat.le_refl _⟩
    rw [List.append_nil]
  | case2 payload s hlt hwindow src hr ih =>
    obtain ⟨filled,s',hfill,hflaw,hbytes,hbound,hsize⟩ := ih (h.read hr).1 hlen
    rw [pollRead_pending hr]
    exact ⟨filled,s',hfill,hflaw,hbytes,hbound,hsize.trans sourceSize_pending.le⟩
  | case3 payload s hlt hwindow err src hr => exact absurd rfl ((h.read hr).2 err)
  | case4 payload s hlt hwindow src hr =>
    obtain ⟨hbytes,_,hlength,_⟩ := pollRead_ok hr
    refine ⟨[],_,by rw [List.append_nil],(h.read hr).1,hbytes,by simpa using hlen,?_⟩
    rw [sourceSize, sourceSize, hbytes]
    simpa using hlength
  | case5 payload s hlt hwindow filled src hr hp ih =>
    obtain ⟨hbytes,hroom,_,_⟩ := pollRead_ok hr
    have hwithin : (payload ++ filled).length ≤ limit := by
      rw [List.length_append]
      omega
    obtain ⟨more,s',hfill,hflaw,hrest,hbound,hsize⟩ := ih (h.read hr).1 hwithin
    refine ⟨filled ++ more,s',?_,hflaw,?_,?_,?_⟩
    · rw [hfill, List.append_assoc]
    · rw [hbytes, hrest, List.append_assoc]
    · rw [← List.append_assoc]
      exact hbound
    · exact hsize.trans (sourceSize_pollRead hr hp).le
  | case6 payload s hge =>
    exact ⟨[],_,by rw [List.append_nil],h,rfl,by simpa using hlen,Nat.le_refl _⟩

theorem postLimit_pos (maxPostBytes : Nat) : 0 < postLimit maxPostBytes := by
  rw [postLimit]
  omega

/-- One call: no batch at the end of the local side, and else one that fits into a POST. -/
theorem readXhttpPostBatch_cases (maxPostBytes : Nat) {s : BatchUpload} (h : Flawless s.source) :
    (∃ s', readXhttpPostBatch maxPostBytes s = (.ok none, s') ∧
      sourceBytes s.source = [] ∧ sourceBytes s'.source = []) ∨
    (∃ batch s', readXhttpPostBatch maxPostBytes s = (.ok (some batch), s') ∧ batch ≠ [] ∧
      batch.length ≤ postLimit maxPostBytes ∧ Flawless s'.source ∧
      sourceBytes s.source = batch ++ sourceBytes s'.source ∧
      sourceSize s'.source < sourceSize s.source) := by
  obtain ⟨first,src,hread,hflaw,hbytes,hlen,hend,hsize⟩ := awaitRead_ok h (postLimit_pos maxPostBytes)
  rw [readXhttpPostBatch, hread]
  dsimp only
  by_cases hfirst : first = []
  · rw [if_pos hfirst]
    refine .inl ⟨_,rfl,hend hfirst,?_⟩
    simpa [hfirst, hend hfirst] using hbytes.symm
  · rw [if_neg hfirst]
    obtain ⟨filled,s',hfill,hflaw',hrest,hbound,hsize'⟩ :=
      fillBatch_ok (s := { s with source := src }) hflaw hlen
    rw [hfill]
    refine .inr ⟨_,s',rfl,?_,hbound,hflaw',?_,Nat.lt_of_le_of_lt hsize' (hsize hfirst)⟩
    · exact fun hnil => hfirst (List.append_eq_nil_iff.mp hnil).1
    · rw [hbytes, List.append_assoc]
      exact congrArg (first ++ ·) hrest

/-- The batches of a local side that has said `whole`, with what it has still to say. -/
structure Batched (limit : Nat) (whole : Bytes) (batches : List Bytes) (rest : Bytes) : Prop where
  fits : ∀ batch ∈ batches, batch ≠ [] ∧ batch.length ≤ limit
  whole : batches.flatten ++ rest = whole

theorem readXhttpPostBatches_batched (maxPostBytes n : Nat) {s : BatchUpload} (h : Flawless s.source) :
    Batched (postLimit maxPostBytes) (sourceBytes s.source)
      (readXhttpPostBatches maxPostBytes n s).1
      (sourceBytes (readXhttpPostBatches maxPostBytes n s).2.source) := by
  induction n generalizing s with
  | zero => exact ⟨fun _ hb => absurd hb List.not_mem_nil,rfl⟩
  | succ n ih =>
    rw [readXhttpPostBatches]
    obtain ⟨s',hcall,hbefore,hafter⟩ | ⟨batch,s',hcall,hne,hlen,hflaw,hbytes,_⟩ :=
      readXhttpPostBatch_cases maxPostBytes h
    · rw [hcall]
      refine ⟨fun _ hb => absurd hb List.not_mem_nil,?_⟩
      rw [hbefore]
      exact hafter
    · rw [hcall]
      have hrest := ih hflaw
      constructor
      · intro b hb
        cases List.mem_cons.mp hb with
        | inl heq => exact heq ▸ ⟨hne,hlen⟩
        | inr hmem => exact hrest.fits b hmem
      · dsimp only
        rw [List.flatten_cons, List.append_assoc, hrest.whole, ← hbytes]

/-- Every call takes something, so that with enough of them nothing is left. -/
theorem readXhttpPostBatches_rest (maxPostBytes : Nat) {n : Nat} {s : BatchUpload}
    (h : Flawless s.source) (hn : sourceSize s.source ≤ n) :
    sourceBytes (readXhttpPostBatches maxPostBytes n s).2.source = [] := by
  induction n generalizing s with
  | zero =>
    rw [sourceSize] at hn
    have hnone : (sourceBytes s.source).length = 0 := by omega
    exact List.length_eq_zero_iff.mp hnone
  | succ n ih =>
    rw [readXhttpPostBatches]
    obtain ⟨s',hcall,_,hafter⟩ | ⟨batch,s',hcall,_,_,hflaw,_,hsize⟩ :=
      readXhttpPostBatch_cases maxPostBytes h
    · rw [hcall]
      exact hafter
    · rw [hcall]
      exact ih hflaw (by omega)

/-- The frames of a payload carry it as far as it has been granted, and the batches of a local
side that no error ends carry what it says. -/
theorem upload_stream_preserved (payload : Bytes) (endOfStream : Bool) (send : DataStream)
    (maxPostBytes : Nat) (upload : BatchUpload) (h : Flawless upload.source) :
    (Sends payload endOfStream send (sendH2DataFrames send payload endOfStream) ∧
      (send.Willing → payload.length ≤ (grants send.capacities).length →
        (sendH2DataFrames send payload endOfStream).1 = .ready (.ok ()))) ∧
    (∀ n, Batched (max 1 (min maxPostBytes xhttpMaxPostBytes)) (sourceBytes upload.source)
      (readXhttpPostBatches maxPostBytes n upload).1
      (sourceBytes (readXhttpPostBatches maxPostBytes n upload).2.source)) ∧
    (∀ n, sourceSize upload.source ≤ n →
      (readXhttpPostBatches maxPostBytes n upload).1.flatten = sourceBytes upload.source) := by
  have hbatched : ∀ n, Batched (postLimit maxPostBytes) (sourceBytes upload.source)
      (readXhttpPostBatches maxPostBytes n upload).1
      (sourceBytes (readXhttpPostBatches maxPostBytes n upload).2.source) :=
    fun n => readXhttpPostBatches_batched maxPostBytes n h
  refine ⟨⟨sendH2DataFrames_sends send payload endOfStream,fun hs hgrants =>
    sendH2DataFrames_willing hs hgrants⟩,hbatched,fun n hn => ?_⟩
  have hwhole := (hbatched n).whole
  rw [readXhttpPostBatches_rest maxPostBytes h hn, List.append_nil] at hwhole
  exact hwhole

/-- One byte is granted, and then all that is asked for. -/
def slowGrants : DataStream := ⟨[.capacity 0, .capacity 1, .pending, .capacity 9], [], 0, []⟩

/-- Two reads, with the end of the window between them. -/
def twoReads : BatchUpload := ⟨[.segment 1 [2], .pending, .segment 3 []], [false, true]⟩

theorem upload_stream_preserved_two :
    Sends [1, 2, 3] true slowGrants (sendH2DataFrames slowGrants [1, 2, 3] true) ∧
      (readXhttpPostBatches 8 6 twoReads).1.flatten = [1, 2, 3] := by
  have hflaw : Flawless twoReads.source := by
    intro err hmem
    simp [twoReads] at hmem
  obtain ⟨⟨hsends,_⟩,_,hwhole⟩ :=
    upload_stream_preserved [1, 2, 3] true slowGrants 8 twoReads hflaw
  exact ⟨hsends,hwhole 6 (by decide)⟩

end AtlasKernel.Xhttp
