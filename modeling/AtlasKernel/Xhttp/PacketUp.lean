import AtlasKernel.Lib.Bytes
import AtlasKernel.Lib.Steps

/-! The upload of XHTTP in packet-up mode: what is read of the local side goes out in
numbered POST requests. Source: `adapter/vless.rs` for HTTP/2, and
`adapter/shadowsocks/transport.rs` for HTTP/1. -/
namespace AtlasKernel.Xhttp
open AtlasKernel.Lib

inductive PostResult where
  | delivered
  | requestNotSent
  | bodyNotSent
  | errorStatus
deriving DecidableEq, Repr

inductive PostFate where
  | underway
  | delivered
  | lost
deriving DecidableEq, Repr

def PostResult.fate : PostResult → PostFate
  | .delivered => .delivered
  | _ => .lost

structure Post where
  seq : UInt64
  payload : Bytes
  fate : PostFate
deriving DecidableEq, Repr

/-- `seq.saturating_add(1)` -/
def nextSeq (seq : UInt64) : UInt64 := if seq = 0xffffffffffffffff then seq else seq + 1

/-- A post that is underway comes to its end. -/
def settle (posts : List Post) (i : Nat) (fate : PostFate) : List Post :=
  posts.modify i fun p => if p.fate = .underway then { p with fate := fate } else p

/-! ## HTTP/2 -/

/-- `spawn_h2_xhttp_packet_bridge`. `running` is the upload loop; `downloadOver` is that the
local side has seen the end of the stream. -/
structure H2PacketBridge where
  maxPostBytes : Nat
  seq : UInt64
  running : Bool
  read : Bytes
  posts : List Post
  downloadOver : Bool
deriving DecidableEq, Repr

/-- `read` is what the local side has to say, `ended` that there is no more of it. -/
inductive H2PacketEvent where
  | read (data : Bytes)
  | ended
  | posted (i : Nat) (result : PostResult)
  | downloadEnds
deriving DecidableEq, Repr

namespace H2PacketBridge

def new (maxPostBytes : Nat) : H2PacketBridge := ⟨maxPostBytes, 0, true, [], [], false⟩

/-- What `upload.read` puts into the buffer. -/
def filled (s : H2PacketBridge) (data : Bytes) : Bytes := data.take (max s.maxPostBytes (16 * 1024))

def step (s : H2PacketBridge) : H2PacketEvent → H2PacketBridge × List Unit
  | .read data =>
    if s.running ∧ s.filled data ≠ [] then
      ({ s with
        seq := nextSeq s.seq
        read := s.read ++ s.filled data
        posts := s.posts ++ [⟨s.seq, s.filled data, .underway⟩] }, [])
    else (s, [])
  | .ended => ({ s with running := false }, [])
  -- the task of a post returns, however it went
  | .posted i result => ({ s with posts := settle s.posts i result.fate }, [])
  | .downloadEnds => ({ s with downloadOver := true }, [])

end H2PacketBridge

/-! ## HTTP/1 -/

def xhttpPacketPostWorkers : Nat := 8

def xhttpPacketPostQueue : Nat := 32

def xhttpMaxPostBytes : Nat := 4 * 1024 * 1024

/-- `max_post_bytes.clamp(1, XHTTP_MAX_POST_BYTES)` -/
def postLimit (maxPostBytes : Nat) : Nat := max 1 (min maxPostBytes xhttpMaxPostBytes)

/-- Where the upload loop stands: before it looks at `failed`, in `read_xhttp_post_batch`, or
at the channel of a worker. -/
inductive UploadPhase where
  | checking
  | reading (batch : Bytes)
  | sending (seq : UInt64) (payload : Bytes)
  | ended
deriving DecidableEq, Repr

/-- A worker with its channel; posts by their positions. -/
structure PostLane where
  alive : Bool
  working : Option Nat
  queue : List Nat
deriving DecidableEq, Repr

/-- `spawn_http1_xhttp_packet_bridge` -/
structure Http1PacketBridge where
  maxEachPostBytes : Nat
  seq : UInt64
  failed : Bool
  phase : UploadPhase
  lanes : List PostLane
  read : Bytes
  posts : List Post
  downloadOver : Bool
deriving DecidableEq, Repr

/-- `check` and `send` are the loop's own; `timer` is the end of the batch window. -/
inductive Http1PacketEvent where
  | check
  | read (data : Bytes)
  | timer
  | eof
  | readError
  | send
  | recv (lane : Nat)
  | posted (lane : Nat) (result : PostResult)
  | downloadEnds
deriving DecidableEq, Repr

namespace Http1PacketBridge

def new (maxEachPostBytes : Nat) : Http1PacketBridge :=
  ⟨maxEachPostBytes, 0, false, .checking, List.replicate xhttpPacketPostWorkers ⟨true, none, []⟩,
    [], [], false⟩

def filled (s : Http1PacketBridge) (batch data : Bytes) : Bytes :=
  data.take (postLimit s.maxEachPostBytes - batch.length)

/-- A batch is complete: it gets its number. -/
def number (s : Http1PacketBridge) (batch : Bytes) : Http1PacketBridge :=
  { s with seq := nextSeq s.seq, phase := .sending s.seq batch }

def step (s : Http1PacketBridge) : Http1PacketEvent → Http1PacketBridge × List Unit
  | .check =>
    match s.phase with
    | .checking => ({ s with phase := if s.failed then .ended else .reading [] }, [])
    | _ => (s, [])
  | .read data =>
    match s.phase with
    | .reading batch =>
      let filled := s.filled batch data
      if filled = [] then (s, [])
      else
        let s := { s with read := s.read ++ filled }
        if (batch ++ filled).length < postLimit s.maxEachPostBytes then
          ({ s with phase := .reading (batch ++ filled) }, [])
        else (s.number (batch ++ filled), [])
    | _ => (s, [])
  | .timer =>
    match s.phase with
    | .reading batch => if batch = [] then (s, []) else (s.number batch, [])
    | _ => (s, [])
  | .eof =>
    match s.phase with
    | .reading batch => if batch = [] then ({ s with phase := .ended }, []) else (s.number batch, [])
    | _ => (s, [])
  | .readError =>
    match s.phase with
    | .reading _ => ({ s with phase := .ended }, [])
    | _ => (s, [])
  | .send =>
    match s.phase with
    | .sending seq payload =>
      match s.lanes[seq.toNat % s.lanes.length]? with
      | none => (s, [])
      | some lane =>
        if lane.alive then
          if lane.queue.length < xhttpPacketPostQueue then
            ({ s with
              phase := .checking
              lanes := s.lanes.set (seq.toNat % s.lanes.length)
                { lane with queue := lane.queue ++ [s.posts.length] }
              posts := s.posts ++ [⟨seq, payload, .underway⟩] }, [])
          else (s, [])
        else
          ({ s with failed := true, phase := .ended, posts := s.posts ++ [⟨seq, payload, .lost⟩] },
            [])
    | _ => (s, [])
  | .recv lane =>
    match s.lanes[lane]? with
    | some ⟨true, none, i :: queue⟩ => ({ s with lanes := s.lanes.set lane ⟨true, some i, queue⟩ }, [])
    | _ => (s, [])
  | .posted lane result =>
    match s.lanes[lane]? with
    | some ⟨true, some i, queue⟩ =>
      if result = .delivered then
        ({ s with
          lanes := s.lanes.set lane ⟨true, none, queue⟩
          posts := settle s.posts i .delivered }, [])
      -- the worker breaks off, and what its channel holds is gone
      else
        ({ s with
          failed := true
          lanes := s.lanes.set lane ⟨false, none, []⟩
          posts := (i :: queue).foldl (fun posts i => settle posts i .lost) s.posts }, [])
    | _ => (s, [])
  | .downloadEnds => ({ s with downloadOver := true }, [])

end Http1PacketBridge

/-! ## No gaps -/

/-- A tunnel as its two ends see it; `held` has been read and is in no post yet. -/
structure Tunnel where
  read : Bytes
  posts : List Post
  held : Bytes
  uploading : Bool
  downloadOver : Bool

/-- The posts are numbered without a gap, each is delivered or on its way, and together they
carry all that was read, once. -/
structure Tunnel.Carried (t : Tunnel) : Prop where
  numbered : t.posts.map (·.seq.toNat) = List.range t.posts.length
  whole : t.posts.flatMap Post.payload ++ t.held = t.read
  kept : ∀ p ∈ t.posts, p.fate ≠ .lost

def Tunnel.TornDown (t : Tunnel) : Prop := t.uploading = false ∧ t.downloadOver = true

def Tunnel.GapFree (limit : Nat) (t : Tunnel) : Prop :=
  (t.Carried ∨ t.TornDown) ∧ ∀ p ∈ t.posts, p.payload.length ≤ limit

def H2PacketBridge.tunnel (s : H2PacketBridge) : Tunnel :=
  ⟨s.read, s.posts, [], s.running, s.downloadOver⟩

def UploadPhase.held : UploadPhase → Bytes
  | .reading batch => batch
  | .sending _ payload => payload
  | _ => []

def Http1PacketBridge.tunnel (s : Http1PacketBridge) : Tunnel :=
  ⟨s.read, s.posts, s.phase.held, s.phase ≠ .ended, s.downloadOver⟩

instance (t : Tunnel) : Decidable t.TornDown := inferInstanceAs (Decidable (_ ∧ _))

/-- A read is no longer than a post may be, the numbers do not run out, and no post is lost
while the tunnel is up. -/
def H2PacketEvent.Fits (s : H2PacketBridge) : H2PacketEvent → Prop
  | .read data => s.running = true → s.filled data ≠ [] →
      (s.filled data).length ≤ s.maxPostBytes ∧ s.seq ≠ 0xffffffffffffffff
  | .posted _ result => result = .delivered ∨ s.tunnel.TornDown
  | _ => True

/-- A post may have a byte, the numbers do not run out, and neither a post nor, by an error,
a batch is lost while the tunnel is up. -/
def Http1PacketEvent.Fits (s : Http1PacketBridge) : Http1PacketEvent → Prop
  | .read _ => s.maxEachPostBytes ≠ 0 ∧ s.seq ≠ 0xffffffffffffffff
  | .timer | .eof => s.seq ≠ 0xffffffffffffffff
  | .readError => s.phase.held = [] ∨ s.downloadOver = true
  | .posted _ result => result = .delivered ∨ s.tunnel.TornDown
  | _ => True

instance (s : H2PacketBridge) : (event : H2PacketEvent) → Decidable (event.Fits s)
  | .read _ | .posted .. => by
    unfold H2PacketEvent.Fits
    infer_instance
  | .ended | .downloadEnds => .isTrue trivial

instance (s : Http1PacketBridge) : (event : Http1PacketEvent) → Decidable (event.Fits s)
  | .read _ | .timer | .eof | .readError | .posted .. => by
    unfold Http1PacketEvent.Fits
    infer_instance
  | .check | .send | .recv _ | .downloadEnds => .isTrue trivial

/-! ## Posts -/

theorem nextSeq_toNat {seq : UInt64} (h : seq ≠ 0xffffffffffffffff) :
    (nextSeq seq).toNat = seq.toNat + 1 := by
  have hlt := seq.toNat_lt
  have hne : seq.toNat ≠ 18446744073709551615 := fun heq => h (UInt64.toNat_inj.mp heq)
  rw [nextSeq, if_neg h, UInt64.toNat_add]
  exact Nat.mod_eq_of_lt (by change seq.toNat + 1 < _; omega)

theorem settle_map {β : Type*} {g : Post → β} (hg : ∀ p fate, g { p with fate := fate } = g p)
    (posts : List Post) (i : Nat) (fate : PostFate) : (settle posts i fate).map g = posts.map g := by
  refine List.ext_getElem? fun n => ?_
  rw [settle, List.getElem?_map, List.getElem?_modify, List.getElem?_map]
  cases posts[n]? with
  | none => rfl
  | some p =>
    refine congrArg some ?_
    change g (if i = n then _ else p) = g p
    split
    · split
      · exact hg p fate
      · rfl
    · rfl

theorem settle_length (posts : List Post) (i : Nat) (fate : PostFate) :
    (settle posts i fate).length = posts.length := List.length_modify ..

theorem settle_kept {posts : List Post} (h : ∀ p ∈ posts, p.fate ≠ .lost) (i : Nat) {fate : PostFate}
    (hfate : fate ≠ .lost) : ∀ p ∈ settle posts i fate, p.fate ≠ .lost := by
  intro p hp
  obtain ⟨n,hn⟩ := List.getElem?_of_mem hp
  rw [settle, List.getElem?_modify] at hn
  obtain ⟨q,hq,rfl⟩ := Option.map_eq_some_iff.mp hn
  have hold := h q (List.mem_of_getElem? hq)
  change (if i = n then _ else q).fate ≠ _
  split
  · split
    · exact hfate
    · exact hold
  · exact hold

/-- No post is longer than the limit. -/
def Within (limit : Nat) (posts : List Post) : Prop := ∀ p ∈ posts, p.payload.length ≤ limit

theorem within_settle {limit : Nat} {posts : List Post} (h : Within limit posts) (i : Nat)
    (fate : PostFate) : Within limit (settle posts i fate) := by
  intro p hp
  have hmem := List.mem_map_of_mem (f := Post.payload) hp
  rw [settle_map (fun _ _ => rfl)] at hmem
  obtain ⟨q,hq,heq⟩ := List.mem_map.mp hmem
  exact heq ▸ h q hq

theorem within_push {limit : Nat} {posts : List Post} (h : Within limit posts) {p : Post}
    (hp : p.payload.length ≤ limit) : Within limit (posts ++ [p]) := by
  intro q hq
  cases List.mem_append.mp hq with
  | inl hold => exact h q hold
  | inr hnew => exact List.mem_singleton.mp hnew ▸ hp

/-- One post more, with the next number and with what was held first. -/
theorem Tunnel.Carried.push {t : Tunnel} (h : t.Carried) {seq : UInt64} {payload held read : Bytes}
    {uploading downloadOver : Bool} (hseq : seq.toNat = t.posts.length)
    (hread : t.posts.flatMap Post.payload ++ payload ++ held = read) :
    Tunnel.Carried ⟨read, t.posts ++ [⟨seq, payload, .underway⟩], held, uploading, downloadOver⟩ := by
  refine ⟨?_, ?_, fun p hp => ?_⟩
  · rw [List.map_append, h.numbered, List.length_append, List.length_singleton, List.range_succ,
      ← hseq]
    rfl
  · rw [List.flatMap_append, List.flatMap_singleton]
    exact hread
  · cases List.mem_append.mp hp with
    | inl hold => exact h.kept p hold
    | inr hnew =>
      rw [List.mem_singleton.mp hnew]
      exact PostFate.noConfusion

theorem Tunnel.Carried.settle {t : Tunnel} (h : t.Carried) (i : Nat) {fate : PostFate}
    (hfate : fate ≠ .lost) : Tunnel.Carried { t with posts := Xhttp.settle t.posts i fate } := by
  refine ⟨?_, ?_, settle_kept h.kept i hfate⟩
  · rw [settle_map (fun _ _ => rfl), settle_length]
    exact h.numbered
  · rw [List.flatMap_def, settle_map (fun _ _ => rfl), ← List.flatMap_def]
    exact h.whole

/-! ## The loop of HTTP/2 -/

namespace H2PacketBridge
variable {s : H2PacketBridge} {limit : Nat}

structure Inv (limit : Nat) (s : H2PacketBridge) : Prop where
  max : s.maxPostBytes = limit
  carried : s.tunnel.Carried ∧ s.seq.toNat = s.posts.length ∨ s.tunnel.TornDown
  within : Within limit s.posts

theorem new_inv (limit : Nat) : (new limit).Inv limit :=
  ⟨rfl, .inl ⟨⟨rfl, rfl, fun _ h => absurd h List.not_mem_nil⟩, rfl⟩,
    fun _ h => absurd h List.not_mem_nil⟩

theorem Inv.step (h : s.Inv limit) (event : H2PacketEvent) (hfits : event.Fits s) :
    (s.step event).1.Inv limit := by
  cases event with
  | read data =>
    rw [H2PacketBridge.step]
    split
    case isFalse => exact h
    case isTrue hread =>
      obtain ⟨hrunning,hne⟩ := hread
      obtain ⟨hlen,hseq⟩ := hfits hrunning hne
      obtain ⟨hcarried,hnext⟩ | ⟨hstop,_⟩ := h.carried
      · refine ⟨h.max, .inl ⟨hcarried.push hnext ?_, ?_⟩, within_push h.within (h.max ▸ hlen)⟩
        · have hwhole := hcarried.whole
          rw [tunnel, List.append_nil] at hwhole
          rw [List.append_nil]
          exact congrArg (· ++ s.filled data) hwhole
        · rw [nextSeq_toNat hseq, hnext, List.length_append]
          rfl
      · exact absurd (hrunning.symm.trans hstop) (by decide)
  | ended =>
    exact ⟨h.max, h.carried.imp (fun hc => ⟨⟨hc.1.numbered, hc.1.whole, hc.1.kept⟩, hc.2⟩)
      fun hdown => ⟨rfl, hdown.2⟩, h.within⟩
  | posted i result =>
    have hwithin := within_settle h.within i result.fate
    obtain ⟨hcarried,hnext⟩ | hdown := h.carried
    · obtain rfl | hdown := hfits
      · refine ⟨h.max, .inl ⟨hcarried.settle i (by decide), ?_⟩, hwithin⟩
        exact hnext.trans (settle_length ..).symm
      · exact ⟨h.max, .inr hdown, hwithin⟩
    · exact ⟨h.max, .inr hdown, hwithin⟩
  | downloadEnds =>
    exact ⟨h.max, h.carried.imp (fun hc => ⟨⟨hc.1.numbered, hc.1.whole, hc.1.kept⟩, hc.2⟩)
      fun hdown => ⟨hdown.1, rfl⟩, h.within⟩

theorem Inv.gapFree (h : s.Inv limit) : s.tunnel.GapFree limit :=
  ⟨h.carried.imp_left And.left, h.within⟩

end H2PacketBridge

/-! ## The loop of HTTP/1 -/

theorem postLimit_le {maxPostBytes : Nat} (h : maxPostBytes ≠ 0) :
    postLimit maxPostBytes ≤ maxPostBytes := by
  rw [postLimit]
  omega

/-- What is held fits into a post, and has its number once it is complete. -/
def UploadPhase.Numbered (limit : Nat) (seq : UInt64) (posts : List Post) : UploadPhase → Prop
  | .sending next payload => next.toNat = posts.length ∧ seq.toNat = posts.length + 1 ∧
      payload.length ≤ limit
  | .reading batch => seq.toNat = posts.length ∧ batch.length ≤ limit
  | _ => seq.toNat = posts.length

namespace Http1PacketBridge
variable {s : Http1PacketBridge} {limit : Nat}

structure Going (limit : Nat) (s : Http1PacketBridge) : Prop where
  carried : s.tunnel.Carried
  numbered : s.phase.Numbered limit s.seq s.posts
  sound : s.failed = false
  alive : ∀ lane ∈ s.lanes, lane.alive = true

structure Inv (limit : Nat) (s : Http1PacketBridge) : Prop where
  max : s.maxEachPostBytes = limit
  going : s.Going limit ∨ s.tunnel.TornDown
  within : Within limit s.posts

theorem new_inv (limit : Nat) : (new limit).Inv limit := by
  refine ⟨rfl, .inl ⟨⟨rfl, rfl, fun _ h => absurd h List.not_mem_nil⟩, rfl, rfl, fun lane h => ?_⟩,
    fun _ h => absurd h List.not_mem_nil⟩
  rw [List.eq_of_mem_replicate h]

theorem tornDown_iff : s.tunnel.TornDown ↔ s.phase = .ended ∧ s.downloadOver = true := by
  rw [Tunnel.TornDown, tunnel, decide_eq_false_iff_not, not_not]

theorem Inv.going_of_phase (h : s.Inv limit) (hphase : s.phase ≠ .ended) : s.Going limit :=
  h.going.resolve_right fun hdown => hphase (tornDown_iff.mp hdown).1

/-- The loop goes on to another phase, with something read. -/
theorem Going.rephase (h : s.Going limit) {phase : UploadPhase} {seq : UInt64} {read : Bytes}
    (hread : s.posts.flatMap Post.payload ++ phase.held = read)
    (hnumbered : phase.Numbered limit seq s.posts) :
    Going limit { s with phase := phase, seq := seq, read := read } :=
  ⟨⟨h.carried.numbered, hread, h.carried.kept⟩, hnumbered, h.sound, h.alive⟩

theorem Going.number (h : s.Going limit) {batch read : Bytes} {seq : UInt64}
    (hseq : s.seq = seq) (hnext : seq.toNat = s.posts.length) (hmax : seq ≠ 0xffffffffffffffff)
    (hread : s.posts.flatMap Post.payload ++ batch = read) (hlen : batch.length ≤ limit) :
    Going limit ({ s with read := read }.number batch) := by
  refine @Going.rephase _ _ h (.sending s.seq batch) _ _ hread ⟨hseq ▸ hnext, ?_, hlen⟩
  rw [hseq, nextSeq_toNat hmax, hnext]

theorem Inv.step_read (h : s.Inv limit) (data : Bytes) (hlimit : limit ≠ 0)
    (hseq : s.seq ≠ 0xffffffffffffffff) : (s.step (.read data)).1.Inv limit := by
  rw [step]
  cases hphase : s.phase with
  | reading batch =>
    dsimp only
    split
    · exact h
    · have hgoing := h.going_of_phase (by rw [hphase]; exact UploadPhase.noConfusion)
      obtain ⟨hnext,hbatch⟩ : s.seq.toNat = s.posts.length ∧ batch.length ≤ limit := by
        have hnumbered := hgoing.numbered
        rw [hphase] at hnumbered
        exact hnumbered
      have hread : s.posts.flatMap Post.payload ++ (batch ++ s.filled batch data) =
          s.read ++ s.filled batch data := by
        have hwhole := hgoing.carried.whole
        rw [tunnel, hphase] at hwhole
        rw [← List.append_assoc]
        exact congrArg (· ++ s.filled batch data) hwhole
      have hlen : (batch ++ s.filled batch data).length ≤ limit := by
        have hle := postLimit_le hlimit
        rw [filled, h.max, List.length_append, List.length_take]
        omega
      split
      · exact ⟨h.max, .inl (hgoing.rephase hread ⟨hnext, hlen⟩), h.within⟩
      · exact ⟨h.max, .inl (hgoing.number rfl hnext hseq hread hlen), h.within⟩
  | _ => exact h

/-- The batch window ends, or the local side does. -/
theorem Inv.number (h : s.Inv limit) {batch : Bytes} (hphase : s.phase = .reading batch)
    (hseq : s.seq ≠ 0xffffffffffffffff) : (s.number batch).Inv limit := by
  have hgoing := h.going_of_phase (by rw [hphase]; exact UploadPhase.noConfusion)
  have hnumbered := hgoing.numbered
  have hwhole := hgoing.carried.whole
  rw [hphase] at hnumbered
  rw [tunnel, hphase] at hwhole
  exact ⟨h.max, .inl (hgoing.number rfl hnumbered.1 hseq hwhole hnumbered.2), h.within⟩

theorem Inv.step_eof (h : s.Inv limit) (hseq : s.seq ≠ 0xffffffffffffffff) :
    (s.step .eof).1.Inv limit ∧ (s.step .timer).1.Inv limit := by
  rw [step, step]
  cases hphase : s.phase with
  | reading batch =>
    dsimp only
    split
    case isTrue hempty =>
      have hgoing := h.going_of_phase (by rw [hphase]; exact UploadPhase.noConfusion)
      have hnumbered := hgoing.numbered
      have hwhole := hgoing.carried.whole
      rw [hphase] at hnumbered
      rw [tunnel, hphase, UploadPhase.held, hempty] at hwhole
      exact ⟨⟨h.max, .inl (hgoing.rephase hwhole hnumbered.1), h.within⟩, h⟩
    case isFalse => exact ⟨h.number hphase hseq, h.number hphase hseq⟩
  | _ => exact ⟨h, h⟩

theorem Inv.step_readError (h : s.Inv limit) (hheld : s.phase.held = [] ∨ s.downloadOver = true) :
    (s.step .readError).1.Inv limit := by
  rw [step]
  cases hphase : s.phase with
  | reading batch =>
    have hgoing := h.going_of_phase (by rw [hphase]; exact UploadPhase.noConfusion)
    obtain hempty | hover := hheld
    · have hnumbered := hgoing.numbered
      have hwhole := hgoing.carried.whole
      rw [hphase] at hnumbered
      rw [tunnel, hempty] at hwhole
      exact ⟨h.max, .inl (hgoing.rephase hwhole hnumbered.1), h.within⟩
    · exact ⟨h.max, .inr (tornDown_iff.mpr ⟨rfl, hover⟩), h.within⟩
  | _ => exact h

theorem alive_set {lanes : List PostLane} (h : ∀ lane ∈ lanes, lane.alive = true) (i : Nat)
    {lane : PostLane} (hlane : lane.alive = true) : ∀ l ∈ lanes.set i lane, l.alive = true := by
  intro l hl
  cases List.mem_or_eq_of_mem_set hl with
  | inl hold => exact h l hold
  | inr heq => exact heq ▸ hlane

theorem Inv.step_send (h : s.Inv limit) : (s.step .send).1.Inv limit := by
  rw [step]
  cases hphase : s.phase with
  | sending seq payload =>
    have hgoing := h.going_of_phase (by rw [hphase]; exact UploadPhase.noConfusion)
    have hnumbered := hgoing.numbered
    have hwhole := hgoing.carried.whole
    rw [hphase] at hnumbered
    rw [tunnel, hphase] at hwhole
    obtain ⟨hnext,hseq,hlen⟩ := hnumbered
    dsimp only
    split
    · exact h
    case h_2 lane hlane =>
      have halive := hgoing.alive lane (List.mem_of_getElem? hlane)
      rw [if_pos halive]
      split
      · refine ⟨h.max, .inl ⟨?_, ?_, hgoing.sound, alive_set hgoing.alive _ halive⟩,
          within_push h.within hlen⟩
        · exact hgoing.carried.push hnext ((List.append_nil _).trans hwhole)
        · have hlength : (s.posts ++ [Post.mk seq payload .underway]).length = s.posts.length + 1 :=
            List.length_append
          exact hseq.trans hlength.symm
      · exact h
  | _ => exact h

theorem within_foldl {posts : List Post} (h : Within limit posts) (is : List Nat) :
    Within limit (is.foldl (fun posts i => settle posts i .lost) posts) := by
  induction is generalizing posts with
  | nil => exact h
  | cons i is ih => exact ih (within_settle h i .lost)

theorem Inv.step_posted (h : s.Inv limit) (lane : Nat) {result : PostResult}
    (hfits : result = .delivered ∨ s.tunnel.TornDown) : (s.step (.posted lane result)).1.Inv limit := by
  rw [step]
  split
  case h_1 i queue hlane =>
    split
    case isTrue =>
      refine ⟨h.max, h.going.imp (fun hgoing => ?_) fun hdown => hdown, within_settle h.within i _⟩
      refine ⟨hgoing.carried.settle i (by decide), ?_, hgoing.sound, alive_set hgoing.alive _ rfl⟩
      have hnumbered := hgoing.numbered
      cases hphase : s.phase with
      | _ =>
        rw [hphase] at hnumbered
        simpa only [UploadPhase.Numbered, settle_length] using hnumbered
    case isFalse hlost =>
      exact ⟨h.max, .inr (hfits.resolve_left hlost), within_foldl h.within _⟩
  case h_2 => exact h

theorem Inv.step (h : s.Inv limit) (event : Http1PacketEvent) (hfits : event.Fits s) :
    (s.step event).1.Inv limit := by
  cases event with
  | check =>
    rw [Http1PacketBridge.step]
    cases hphase : s.phase with
    | checking =>
      have hgoing := h.going_of_phase (by rw [hphase]; exact UploadPhase.noConfusion)
      have hnumbered := hgoing.numbered
      have hwhole := hgoing.carried.whole
      rw [hphase] at hnumbered
      rw [tunnel, hphase] at hwhole
      have hreading : Going limit { s with phase := .reading [] } :=
        hgoing.rephase hwhole ⟨hnumbered, Nat.zero_le _⟩
      dsimp only
      have hlives : (if s.failed = true then UploadPhase.ended else .reading []) = .reading [] := by
        rw [hgoing.sound]
        rfl
      rw [hlives]
      exact ⟨h.max, .inl hreading, h.within⟩
    | _ => exact h
  | read data => exact h.step_read data (h.max ▸ hfits.1) hfits.2
  | timer => exact (h.step_eof hfits).2
  | eof => exact (h.step_eof hfits).1
  | readError => exact h.step_readError hfits
  | send => exact h.step_send
  | recv lane =>
    rw [Http1PacketBridge.step]
    split
    case h_1 i queue hlane =>
      refine ⟨h.max, h.going.imp_left fun hgoing => ?_, h.within⟩
      exact ⟨hgoing.carried, hgoing.numbered, hgoing.sound, alive_set hgoing.alive _ rfl⟩
    case h_2 => exact h
  | posted lane result => exact h.step_posted lane hfits
  | downloadEnds =>
    refine ⟨h.max, h.going.imp (fun hgoing => ?_) fun hdown => ?_, h.within⟩
    · exact ⟨⟨hgoing.carried.numbered, hgoing.carried.whole, hgoing.carried.kept⟩, hgoing.numbered,
        hgoing.sound, hgoing.alive⟩
    · exact tornDown_iff.mpr ⟨(tornDown_iff.mp hdown).1, rfl⟩

theorem Inv.gapFree (h : s.Inv limit) : s.tunnel.GapFree limit :=
  ⟨h.going.imp_left Going.carried, h.within⟩

end Http1PacketBridge

/-- In every run in which no read is longer than a post may be, no post is lost while the
tunnel is up and the numbers do not run out, the upload has no gap. -/
theorem packet_up_gap_free (limit : Nat) :
    (∀ events : List H2PacketEvent,
      Meets H2PacketBridge.step (fun s event => event.Fits s) (.new limit) events →
        (run H2PacketBridge.step (.new limit) events).1.tunnel.GapFree limit) ∧
    (∀ events : List Http1PacketEvent,
      Meets Http1PacketBridge.step (fun s event => event.Fits s) (.new limit) events →
        (run Http1PacketBridge.step (.new limit) events).1.tunnel.GapFree limit) := by
  constructor
  · intro events h
    have hinv := @run_invariant _ _ _ H2PacketBridge.step _ (fun s _ => s.Inv limit)
      (fun _ _ event hs hfits => hs.step event hfits) (.new limit) [] (H2PacketBridge.new_inv limit)
      events h
    exact hinv.gapFree
  · intro events h
    have hinv := @run_invariant _ _ _ Http1PacketBridge.step _ (fun s _ => s.Inv limit)
      (fun _ _ event hs hfits => hs.step event hfits) (.new limit) []
      (Http1PacketBridge.new_inv limit) events h
    exact hinv.gapFree

/-- Two reads and their posts, delivered in the other order. -/
def h2Upload : List H2PacketEvent :=
  [.read [1, 2], .read [3], .posted 1 .delivered, .posted 0 .delivered, .downloadEnds, .ended]

/-- A batch of two reads that the window ends, and one that the local side does. -/
def http1Upload : List Http1PacketEvent :=
  [.check, .read [1], .read [2], .timer, .send, .recv 0, .check, .read [3], .posted 0 .delivered,
    .eof, .send, .recv 1, .posted 1 .delivered, .check, .eof, .downloadEnds]

theorem packet_up_gap_free_runs :
    (run H2PacketBridge.step (.new 20000) h2Upload).1.tunnel.GapFree 20000 ∧
    (run Http1PacketBridge.step (.new 20000) http1Upload).1.tunnel.GapFree 20000 :=
  ⟨(packet_up_gap_free 20000).1 h2Upload (by decide +kernel),
    (packet_up_gap_free 20000).2 http1Upload (by decide +kernel)⟩

/-- A batch that is read, numbered and handed to its worker. -/
def http1Batch : List Http1PacketEvent := [.check, .read [1], .timer, .send, .recv 0]

/-- A lost post leaves a gap in a tunnel that stays up, over HTTP/1 with the upload loop
ended, and a read of 2000 bytes goes out in one post of at most 1024. -/
theorem packet_up_gap :
    ¬ (run H2PacketBridge.step (.new 262144) [.read [1], .posted 0 .errorStatus]).1.tunnel.GapFree
      262144 ∧
    ¬ (run H2PacketBridge.step (.new 1024) [.read (List.replicate 2000 0)]).1.tunnel.GapFree 1024 ∧
    ¬ (run Http1PacketBridge.step (.new 262144)
      (http1Batch ++ [.posted 0 .requestNotSent, .check])).1.tunnel.GapFree 262144 := by
  refine ⟨fun h => ?_, fun h => ?_, fun h => ?_⟩
  · obtain hcarried | hdown := h.1
    · exact hcarried.kept ⟨0, [1], .lost⟩ (by decide +kernel) rfl
    · exact absurd hdown (by decide +kernel)
  · exact absurd (h.2 ⟨0, List.replicate 2000 0, .underway⟩ (by decide +kernel)) (by decide +kernel)
  · obtain hcarried | hdown := h.1
    · exact hcarried.kept ⟨0, [1], .lost⟩ (by decide +kernel) rfl
    · exact absurd hdown (by decide +kernel)

end AtlasKernel.Xhttp
