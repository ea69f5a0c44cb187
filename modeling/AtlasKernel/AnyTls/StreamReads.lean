import Mathlib.Algebra.GroupWithZero.Nat
import AtlasKernel.Lib.Bytes
import AtlasKernel.Lib.Steps

/-! The reading half of an AnyTLS stream: the payloads of PUSH frames are queued by the
session's read loop and taken out, a chunk at a time, by `poll_read`. Source: `AnyTlsStream`
in `adapter/anytls.rs`. -/
namespace AtlasKernel.AnyTls
open AtlasKernel.Lib

/-! ## The stream -/

/-- What the receiver of the SYNACK finds. -/
inductive SynackState where
  | waiting
  | answered (answer : Except String Unit)
  | dropped

inductive ReadAnswer where
  | ready (put : Bytes)
  | pending
  | aborted (message : String)
deriving DecidableEq, Repr

/-- `ended` is that no sender of `incoming` is left. -/
structure AnyTlsStream where
  incoming : List Bytes
  ended : Bool
  current : Option Bytes
  synack : Option SynackState

/-- A read comes with the room of its buffer and, where the channel fails spuriously in that
call, with the number of chunks it gives before. -/
inductive StreamEvent where
  | push (data : Bytes)
  | ends
  | synack (answer : SynackState)
  | read (room : Nat) (failsAfter : Option Nat)

inductive StreamOutput where
  | queued (data : Bytes)
  | read (room : Nat) (failsAfter : Option Nat) (answer : ReadAnswer)
deriving DecidableEq

/-- The slice that goes into the buffer, unless it is empty, and what is left of the chunk. -/
def putSlice (room : Nat) (current : Option Bytes) : Option (Bytes × Option Bytes) :=
  match current with
  | none => none
  | some current =>
    let n := min current.length room
    if 0 < n then
      some (current.take n, if current.drop n = [] then none else some (current.drop n))
    else none

/-- The loop of `poll_read`; `idle` is the answer where the channel gives nothing more. -/
def readChunks (room : Nat) (idle : ReadAnswer) (current : Option Bytes) (incoming : List Bytes) :
    ReadAnswer × Option Bytes × List Bytes :=
  match putSlice room current with
  | some (put, current) => (.ready put, current, incoming)
  | none =>
    match incoming with
    | [] => (idle, current, [])
    | data :: incoming => readChunks room idle (some data) incoming

namespace AnyTlsStream

def new : AnyTlsStream := ⟨[], false, none, some .waiting⟩

/-- The error that the SYNACK came with. -/
def refused (s : AnyTlsStream) : Option String :=
  match s.synack with
  | some (.answered (.error err)) => some err
  | _ => none

def pollSynack (s : AnyTlsStream) : AnyTlsStream :=
  match s.synack with
  | some .waiting => s
  | _ => { s with synack := none }

/-- The chunks that the channel gives in one call. -/
def given (s : AnyTlsStream) (failsAfter : Option Nat) : List Bytes :=
  match failsAfter with
  | none => s.incoming
  | some n => s.incoming.take n

def withheld (s : AnyTlsStream) (failsAfter : Option Nat) : List Bytes :=
  match failsAfter with
  | none => []
  | some n => s.incoming.drop n

def idle (s : AnyTlsStream) (failsAfter : Option Nat) : ReadAnswer :=
  if failsAfter = none ∧ s.ended then .ready [] else .pending

def pollRead (s : AnyTlsStream) (room : Nat) (failsAfter : Option Nat) : ReadAnswer × AnyTlsStream :=
  match s.refused with
  | some err => (.aborted err, s.pollSynack)
  | none =>
    let r := readChunks room (s.idle failsAfter) s.current (s.given failsAfter)
    (r.1, { s.pollSynack with current := r.2.1, incoming := r.2.2 ++ s.withheld failsAfter })

def step (s : AnyTlsStream) : StreamEvent → AnyTlsStream × List StreamOutput
  | .push data =>
    if s.ended then (s, []) else ({ s with incoming := s.incoming ++ [data] }, [.queued data])
  | .ends => ({ s with ended := true }, [])
  | .synack answer =>
    match s.synack with
    | some .waiting => ({ s with synack := some answer }, [])
    | _ => (s, [])
  | .read room failsAfter =>
    ((s.pollRead room failsAfter).2, [.read room failsAfter (s.pollRead room failsAfter).1])

end AnyTlsStream

/-- What a read put in its buffer. -/
def ReadAnswer.put : ReadAnswer → Bytes
  | .ready put => put
  | _ => []

def delivered (log : List StreamOutput) : Bytes :=
  log.flatMap fun | .read _ _ answer => answer.put | .queued _ => []

def queuedIn (log : List StreamOutput) : List Bytes :=
  log.filterMap fun | .queued data => some data | .read .. => none

/-- A read that comes with room for so many bytes, and that neither the SYNACK nor a failure of
the channel cuts short. -/
def StreamOutput.offers (size : Nat) : StreamOutput → Bool
  | .read _ _ (.aborted _) => false
  | .read room failsAfter _ => size ≤ room && failsAfter = none
  | .queued _ => false

def offered (size : Nat) (log : List StreamOutput) : Nat := log.countP (StreamOutput.offers size)

/-- How many buffers of `size` bytes the chunks take, when none is filled from two chunks. -/
def buffersFor (size : Nat) (chunks : List Bytes) : Nat :=
  (chunks.map fun chunk => (chunk.length + size - 1) / size).sum

/-- What is delivered is a prefix of the payloads, and whatever was queued up to some time is
delivered once the reads since then have offered buffers enough for it. -/
structure LosesNothing (events : List StreamEvent) : Prop where
  in_order : delivered (run AnyTlsStream.step .new events).2 <+:
    (queuedIn (run AnyTlsStream.step .new events).2).flatten
  complete : ∀ before later, events = before ++ later → ∀ size, 0 < size →
    buffersFor size (queuedIn (run AnyTlsStream.step .new before).2) ≤
      offered size (run AnyTlsStream.step (run AnyTlsStream.step .new before).1 later).2 →
    (queuedIn (run AnyTlsStream.step .new before).2).flatten <+:
      delivered (run AnyTlsStream.step .new events).2

@[simp] theorem delivered_append (log log' : List StreamOutput) :
    delivered (log ++ log') = delivered log ++ delivered log' := List.flatMap_append

@[simp] theorem queuedIn_append (log log' : List StreamOutput) :
    queuedIn (log ++ log') = queuedIn log ++ queuedIn log' := List.filterMap_append

@[simp] theorem offered_append (size : Nat) (log log' : List StreamOutput) :
    offered size (log ++ log') = offered size log + offered size log' := List.countP_append

@[simp] theorem buffersFor_append (size : Nat) (chunks chunks' : List Bytes) :
    buffersFor size (chunks ++ chunks') = buffersFor size chunks + buffersFor size chunks' := by
  simp [buffersFor]

@[simp] theorem buffersFor_cons (size : Nat) (chunk : Bytes) (chunks : List Bytes) :
    buffersFor size (chunk :: chunks) =
      (chunk.length + size - 1) / size + buffersFor size chunks := by
  simp [buffersFor]

@[simp] theorem buffersFor_nil (size : Nat) : buffersFor size [] = 0 := rfl

theorem buffersFor_eq_zero_iff {size : Nat} (hsize : 0 < size) (chunks : List Bytes) :
    buffersFor size chunks = 0 ↔ chunks.flatten = [] := by
  induction chunks with
  | nil => simp
  | cons chunk chunks ih =>
    have hchunk : (chunk.length + size - 1) / size = 0 ↔ chunk = [] := by
      rw [Nat.div_eq_zero_iff_lt hsize, ← List.length_eq_zero_iff]
      omega
    rw [buffersFor_cons, Nat.add_eq_zero_iff, hchunk, ih, List.flatten_cons, List.append_eq_nil_iff]

theorem buffersFor_drop_lt {size room : Nat} {chunk : Bytes} (hsize : 0 < size)
    (hroom : size ≤ room) (hchunk : chunk ≠ []) :
    ((chunk.drop room).length + size - 1) / size < (chunk.length + size - 1) / size := by
  have hpos : 0 < chunk.length := List.length_pos_iff.mpr hchunk
  rw [List.length_drop]
  by_cases hlong : room < chunk.length
  · calc
      (chunk.length - room + size - 1) / size < (chunk.length - room + size - 1) / size + 1 := Nat.lt_succ_self _
      _ = (chunk.length - room + size - 1 + size) / size := (Nat.add_div_right _ hsize).symm
      _ ≤ (chunk.length + size - 1) / size := Nat.div_le_div_right (by omega)
  · have hzero : (chunk.length - room + size - 1) / size = 0 := Nat.div_eq_of_lt (by omega)
    rw [hzero]
    exact Nat.div_pos (by omega) hsize

theorem buffersFor_drop_le (size room : Nat) (chunk : Bytes) :
    buffersFor size [chunk.drop room] ≤ buffersFor size [chunk] := by
  simp only [buffersFor_cons, buffersFor_nil, List.length_drop]
  exact Nat.add_le_add_right (Nat.div_le_div_right (by omega)) 0

/-! ## One read -/

/-- What is left when a chunk has filled so much room. -/
def remainder (room : Nat) (chunk : Bytes) (later : List Bytes) : List Bytes :=
  if chunk.drop room = [] then later else chunk.drop room :: later

theorem remainder_append (room : Nat) (chunk : Bytes) (later later' : List Bytes) :
    remainder room chunk later ++ later' = remainder room chunk (later ++ later') := by
  unfold remainder
  split <;> rfl

@[simp] theorem remainder_flatten (room : Nat) (chunk : Bytes) (later : List Bytes) :
    (remainder room chunk later).flatten = chunk.drop room ++ later.flatten := by
  unfold remainder
  split
  · simp [*]
  · rfl

theorem buffersFor_remainder (size room : Nat) (chunk : Bytes) (later : List Bytes) :
    buffersFor size (remainder room chunk later) =
      buffersFor size [chunk.drop room] + buffersFor size later := by
  unfold remainder
  split
  · rename_i hdrop
    cases size with
    | zero => simp [hdrop]
    | succ n => simp [hdrop, Nat.div_eq_of_lt]
  · simp

/-- The chunk that is at hand when the loop ends goes to the buffer, as far as there is room, or
stays if there is none. -/
inductive Taken (room : Nat) (idle : ReadAnswer) : List Bytes → ReadAnswer → List Bytes → Prop where
  | put (chunk : Bytes) (later : List Bytes) : chunk ≠ [] → 0 < room →
    Taken room idle (chunk :: later) (.ready (chunk.take room)) (remainder room chunk later)
  | idle (kept : List Bytes) : (∀ c ∈ kept, c = [] ∨ room = 0) → Taken room idle kept idle kept

/-- The chunks that the loop leaves behind are empty, or there is no room. -/
structure ReadDoes (room : Nat) (idle : ReadAnswer) (chunks : List Bytes) (answer : ReadAnswer)
    (kept : List Bytes) : Prop where
  intro ::
  split : ∃ left rest, chunks = left ++ rest ∧ (∀ c ∈ left, c = [] ∨ room = 0) ∧
    (room = 0 → left = chunks.dropLast) ∧ Taken room idle rest answer kept

theorem putSlice_none {room : Nat} {current : Option Bytes} (h : putSlice room current = none) :
    ∀ c ∈ current.toList, c = [] ∨ room = 0 := by
  cases current with
  | none => simp
  | some chunk =>
    simp only [putSlice] at h
    split at h
    · cases h
    · rename_i hn
      simp only [Option.toList_some, List.mem_singleton, forall_eq]
      rw [← List.length_eq_zero_iff]
      omega

theorem putSlice_some {room : Nat} {current left : Option Bytes} {put : Bytes}
    (h : putSlice room current = some (put, left)) (idle : ReadAnswer) (incoming : List Bytes) :
    0 < room ∧ Taken room idle (current.toList ++ incoming) (.ready put) (left.toList ++ incoming) := by
  cases current with
  | none => cases h
  | some chunk =>
    simp only [putSlice] at h
    split at h
    · rename_i hn
      have hroom : 0 < room := by omega
      have htake : chunk.take (min chunk.length room) = chunk.take room := by
        rw [Nat.min_comm, ← List.take_eq_take_min]
      have hdrop : chunk.drop (min chunk.length room) = chunk.drop room := by
        rw [Nat.min_comm, ← List.drop_eq_drop_min]
      have hleft : (if chunk.drop room = [] then none else some (chunk.drop room)).toList ++ incoming =
          remainder room chunk incoming := by
        unfold remainder
        split <;> rfl
      rw [htake, hdrop] at h
      cases h
      rw [hleft]
      exact ⟨hroom,.put chunk incoming (List.ne_nil_of_length_pos (by omega)) hroom⟩
    · cases h

theorem readChunks_does (room : Nat) (idle : ReadAnswer) (current : Option Bytes)
    (incoming : List Bytes) :
    ReadDoes room idle (current.toList ++ incoming) (readChunks room idle current incoming).1
      ((readChunks room idle current incoming).2.1.toList ++
        (readChunks room idle current incoming).2.2) := by
  induction incoming generalizing current with
  | nil =>
    unfold readChunks
    cases hput : putSlice room current with
    | some r =>
      obtain ⟨hroom,htaken⟩ := putSlice_some hput idle []
      exact ⟨[],_,rfl,by simp,by omega,htaken⟩
    | none =>
      refine ⟨[],_,rfl,by simp,fun _ => ?_,.idle _ (by simpa using putSlice_none hput)⟩
      cases current <;> rfl
  | cons data incoming ih =>
    unfold readChunks
    cases hput : putSlice room current with
    | some r =>
      obtain ⟨hroom,htaken⟩ := putSlice_some hput idle (data :: incoming)
      exact ⟨[],_,rfl,by simp,by omega,htaken⟩
    | none =>
      obtain ⟨left,rest,heq,hleft,hlast,htaken⟩ := (ih (some data)).split
      refine ⟨current.toList ++ left,rest,?_,?_,fun hroom => ?_,htaken⟩
      · rw [List.append_assoc, ← heq]
        rfl
      · exact List.forall_mem_append.mpr ⟨putSlice_none hput,hleft⟩
      · rw [hlast hroom]
        exact (List.dropLast_append_of_ne_nil (by simp)).symm

namespace AnyTlsStream
variable {s : AnyTlsStream}

def chunks (s : AnyTlsStream) : List Bytes := s.current.toList ++ s.incoming

/-- A read with no room goes past empty chunks only, if it gets to them. -/
def Keeps (s : AnyTlsStream) : StreamEvent → Prop
  | .read room failsAfter => room = 0 → s.refused = none →
    ∀ c ∈ (s.current.toList ++ s.given failsAfter).dropLast, c = []
  | _ => True

@[simp] theorem pollSynack_chunks (s : AnyTlsStream) : s.pollSynack.chunks = s.chunks := by
  unfold pollSynack
  split <;> rfl

theorem given_withheld (s : AnyTlsStream) (failsAfter : Option Nat) :
    s.given failsAfter ++ s.withheld failsAfter = s.incoming := by
  cases failsAfter with
  | none => exact List.append_nil _
  | some n => exact List.take_append_drop n _

theorem idle_put (s : AnyTlsStream) (failsAfter : Option Nat) : (s.idle failsAfter).put = [] := by
  unfold idle
  split <;> rfl

/-- What a read does to the chunks. -/
inductive Reads (s s' : AnyTlsStream) (room : Nat) (failsAfter : Option Nat) : ReadAnswer → Prop where
  | aborted (err : String) : s.refused = some err → s'.chunks = s.chunks →
    Reads s s' room failsAfter (.aborted err)
  | taken (left rest kept : List Bytes) (answer : ReadAnswer) : s.refused = none →
    s.current.toList ++ s.given failsAfter = left ++ rest →
    (∀ c ∈ left, c = [] ∨ room = 0) →
    (room = 0 → left = (s.current.toList ++ s.given failsAfter).dropLast) →
    Taken room (s.idle failsAfter) rest answer kept →
    s.chunks = left ++ (rest ++ s.withheld failsAfter) →
    s'.chunks = kept ++ s.withheld failsAfter → Reads s s' room failsAfter answer

theorem pollRead_reads (s : AnyTlsStream) (room : Nat) (failsAfter : Option Nat) :
    Reads s (s.pollRead room failsAfter).2 room failsAfter (s.pollRead room failsAfter).1 := by
  unfold pollRead
  cases hrefused : s.refused with
  | some err => exact .aborted err hrefused (pollSynack_chunks s)
  | none =>
    obtain ⟨left,rest,heq,hleft,hlast,htaken⟩ :=
      (readChunks_does room (s.idle failsAfter) s.current (s.given failsAfter)).split
    refine .taken left rest _ _ hrefused heq hleft hlast htaken ?_ ?_
    · rw [chunks, ← given_withheld s failsAfter, ← List.append_assoc, heq, List.append_assoc]
    · rw [chunks, List.append_assoc]

/-- What a step does where nothing is overwritten. -/
inductive Advances (s s' : AnyTlsStream) (out : List StreamOutput) : Prop where
  | waits (gone kept : List Bytes) : s.chunks = gone ++ kept → gone.flatten = [] →
    s'.chunks = kept ++ queuedIn out → delivered out = [] →
    (∀ size, 0 < size → offered size out = 0 ∨ kept.flatten = []) → Advances s s' out
  | puts (gone : List Bytes) (chunk : Bytes) (later : List Bytes) (room : Nat)
    (failsAfter : Option Nat) : s.chunks = gone ++ chunk :: later → gone.flatten = [] →
    chunk ≠ [] → 0 < room → s'.chunks = remainder room chunk later →
    out = [.read room failsAfter (.ready (chunk.take room))] → Advances s s' out

theorem Advances.quiet {s s' : AnyTlsStream} {out : List StreamOutput}
    (hchunks : s'.chunks = s.chunks ++ queuedIn out) (hout : delivered out = [])
    (hoffered : ∀ size, offered size out = 0) : Advances s s' out :=
  .waits [] s.chunks rfl rfl hchunks hout fun size _ => .inl (hoffered size)

theorem step_advances {e : StreamEvent} (hkeeps : s.Keeps e) :
    Advances s (s.step e).1 (s.step e).2 := by
  cases e with
  | push data =>
    by_cases hended : s.ended = true
    · rw [step, if_pos hended]
      exact .quiet (by simp [queuedIn]) rfl fun _ => rfl
    · rw [step, if_neg hended]
      exact .quiet (by simp [chunks, queuedIn]) rfl fun _ => rfl
  | ends => exact .quiet (by simp [step, chunks, queuedIn]) rfl fun _ => rfl
  | synack answer =>
    rw [step]
    split
    · exact .quiet (by simp [chunks, queuedIn]) rfl fun _ => rfl
    · exact .quiet (by simp [queuedIn]) rfl fun _ => rfl
  | read room failsAfter =>
    rw [step]
    generalize hanswer : (s.pollRead room failsAfter).1 = answer
    have hreads := pollRead_reads s room failsAfter
    rw [hanswer] at hreads
    cases hreads with
    | aborted err _ hchunks =>
      exact .quiet (by simp [hchunks, queuedIn]) rfl fun _ => rfl
    | taken left rest kept _ hrefused heq hleft hlast htaken hchunks hchunks' =>
      have hempty : left.flatten = [] := by
        rw [List.flatten_eq_nil_iff]
        intro c hc
        by_cases hroom : room = 0
        · rw [hlast hroom] at hc
          exact hkeeps hroom hrefused c hc
        · exact (hleft c hc).resolve_right hroom
      cases htaken with
      | put chunk later hchunk hroom =>
        refine .puts left chunk (later ++ s.withheld failsAfter) room failsAfter hchunks hempty hchunk hroom ?_ rfl
        rw [hchunks', remainder_append]
      | idle _ hkept =>
        refine .waits left _ hchunks hempty ?_ ?_ fun size hsize => ?_
        · simp [hchunks', queuedIn]
        · simp [delivered, idle_put]
        · by_cases hoffers : failsAfter = none ∧ size ≤ room
          · right
            rw [hoffers.1, withheld, List.append_nil, List.flatten_eq_nil_iff]
            intro c hc
            exact (hkept c hc).resolve_right (by omega)
          · left
            cases hidle : s.idle failsAfter <;> simp [offered, StreamOutput.offers] <;> tauto

theorem Advances.conserves {s' : AnyTlsStream} {out : List StreamOutput} (h : Advances s s' out) :
    delivered out ++ s'.chunks.flatten = s.chunks.flatten ++ (queuedIn out).flatten := by
  cases h with
  | waits gone kept hs hgone hs' hout _ =>
    rw [hs, hs', hout, List.flatten_append, List.flatten_append, hgone]
    rfl
  | puts gone chunk later room failsAfter hs hgone _ _ hs' hout =>
    have hnone : queuedIn out = [] := by
      rw [hout]
      rfl
    have hput : delivered out = chunk.take room := by
      rw [hout]
      exact List.append_nil _
    rw [hs, hs', hnone, hput, remainder_flatten, List.flatten_append, hgone, ← List.append_assoc,
      List.take_append_drop]
    simp

theorem Advances.buffersFor_le {s' : AnyTlsStream} {out : List StreamOutput} {size : Nat}
    (h : Advances s s' out) :
    buffersFor size s'.chunks ≤ buffersFor size s.chunks + buffersFor size (queuedIn out) := by
  cases h with
  | waits gone kept hs _ hs' _ _ =>
    rw [hs, hs', buffersFor_append, buffersFor_append]
    omega
  | puts gone chunk later room failsAfter hs _ _ _ hs' _ =>
    have hdrop := buffersFor_drop_le size room chunk
    rw [hs, hs', buffersFor_remainder, buffersFor_append, ← List.singleton_append (l := later),
      buffersFor_append]
    omega

/-- What is owed of the payloads is the first of the chunks, and every buffer that is offered
makes it less. -/
def Owed (size total : Nat) (payload : Bytes) (s : AnyTlsStream) (done : Bytes) (offers : Nat) : Prop :=
  payload <+: done ∨ ∃ old later, s.chunks = old ++ later ∧ done ++ old.flatten = payload ∧
    buffersFor size old + offers ≤ total

theorem Owed.of_flatten {size total offers : Nat} {payload done : Bytes} {old : List Bytes}
    (hpayload : done ++ old.flatten = payload) (hold : old.flatten = []) (put : Bytes) :
    Owed size total payload s (done ++ put) offers := by
  rw [hold, List.append_nil] at hpayload
  exact .inl (hpayload ▸ List.prefix_append _ _)

/-- A buffer that is filled from a chunk is one of those the chunk takes. -/
theorem offered_put_le {size room : Nat} {chunk : Bytes} (hsize : 0 < size) (hchunk : chunk ≠ [])
    (failsAfter : Option Nat) :
    buffersFor size [chunk.drop room] +
        offered size [.read room failsAfter (.ready (chunk.take room))] ≤
      buffersFor size [chunk] := by
  by_cases hroom : size ≤ room
  · have hlt := buffersFor_drop_lt hsize hroom hchunk
    have hone : offered size [.read room failsAfter (.ready (chunk.take room))] ≤ 1 :=
      List.countP_le_length
    simp only [buffersFor_cons, buffersFor_nil]
    omega
  · have hdrop := buffersFor_drop_le size room chunk
    have hnone : offered size [.read room failsAfter (.ready (chunk.take room))] = 0 := by
      simp [offered, StreamOutput.offers, hroom]
    omega

theorem Advances.owed {s' : AnyTlsStream} {out : List StreamOutput} {size total offers : Nat}
    {payload done : Bytes} (h : Advances s s' out) (hsize : 0 < size)
    (howed : Owed size total payload s done offers) :
    Owed size total payload s' (done ++ delivered out) (offers + offered size out) := by
  obtain hdone | ⟨old,later,hchunks,hpayload,hle⟩ := howed
  · exact .inl (hdone.trans (List.prefix_append _ _))
  cases h with
  | waits gone kept hs hgone hs' hout hoffered =>
    cases List.append_eq_append_iff.mp (hs.symm.trans hchunks) with
    | inl hsplit =>
      obtain ⟨past,rfl,hkept⟩ := hsplit
      rw [List.flatten_append, hgone, List.nil_append] at hpayload
      rw [buffersFor_append] at hle
      cases hoffered size hsize with
      | inl hnone =>
        refine .inr ⟨past,later ++ queuedIn out,?_,?_,by omega⟩
        · rw [hs', hkept, List.append_assoc]
        · rw [hout, List.append_nil, hpayload]
      | inr hempty =>
        rw [hkept, List.flatten_append, List.append_eq_nil_iff] at hempty
        exact Owed.of_flatten hpayload hempty.1 _
    | inr hsplit =>
      obtain ⟨past,rfl,hlater⟩ := hsplit
      rw [List.flatten_append, List.append_eq_nil_iff] at hgone
      exact Owed.of_flatten hpayload hgone.1 _
  | puts gone chunk rest room failsAfter hs hgone hchunk hroom hs' hout =>
    have hput : delivered out = chunk.take room := by
      rw [hout]
      exact List.append_nil _
    cases List.append_eq_append_iff.mp (hs.symm.trans hchunks) with
    | inl hsplit =>
      obtain ⟨past,rfl,hrest⟩ := hsplit
      rw [List.flatten_append, hgone, List.nil_append] at hpayload
      cases past with
      | nil => exact Owed.of_flatten hpayload rfl _
      | cons first past =>
        rw [List.cons_append, List.cons.injEq] at hrest
        obtain ⟨rfl,rfl⟩ := hrest
        have hoffer := @offered_put_le size room chunk hsize hchunk failsAfter
        rw [buffersFor_append, ← List.singleton_append, buffersFor_append] at hle
        refine .inr ⟨remainder room chunk past,later,?_,?_,?_⟩
        · rw [hs', remainder_append]
        · rw [hput, remainder_flatten, ← hpayload, List.flatten_cons, List.append_assoc,
            ← List.append_assoc (chunk.take room), List.take_append_drop]
        · rw [buffersFor_remainder, hout]
          omega
    | inr hsplit =>
      obtain ⟨past,rfl,hlater⟩ := hsplit
      rw [List.flatten_append, List.append_eq_nil_iff] at hgone
      exact Owed.of_flatten hpayload hgone.1 _

/-! ## Runs -/

theorem run_conserves {events : List StreamEvent} (h : Meets step Keeps .new events) :
    delivered (run step .new events).2 ++ (run step .new events).1.chunks.flatten =
        (queuedIn (run step .new events).2).flatten ∧
      ∀ size, buffersFor size (run step .new events).1.chunks ≤
        buffersFor size (queuedIn (run step .new events).2) := by
  have hstart : delivered [] ++ new.chunks.flatten = (queuedIn []).flatten ∧
      ∀ size, buffersFor size new.chunks ≤ buffersFor size (queuedIn []) :=
    ⟨rfl,fun _ => Nat.le_refl _⟩
  refine run_invariant (fun s log => delivered log ++ s.chunks.flatten = (queuedIn log).flatten ∧
    ∀ size, buffersFor size s.chunks ≤ buffersFor size (queuedIn log)) ?_ hstart events h
  intro s log e hlog hkeeps
  have hstep := step_advances hkeeps
  constructor
  · rw [delivered_append, queuedIn_append, List.flatten_append, ← hlog.1, List.append_assoc,
      hstep.conserves, List.append_assoc]
  · intro size
    rw [queuedIn_append, buffersFor_append]
    exact Nat.le_trans hstep.buffersFor_le (Nat.add_le_add_right (hlog.2 size) _)

theorem run_owed {size total : Nat} {payload done : Bytes} (hsize : 0 < size) {events : List StreamEvent}
    (hmeets : Meets step Keeps s events) (h : Owed size total payload s done 0) :
    Owed size total payload (run step s events).1 (done ++ delivered (run step s events).2)
      (offered size (run step s events).2) := by
  have hstart : Owed size total payload s (done ++ delivered []) (offered size []) := by
    simpa [delivered, offered] using h
  refine run_invariant (fun s log =>
    Owed size total payload s (done ++ delivered log) (offered size log)) ?_ hstart events hmeets
  intro s log e howed hkeeps
  rw [delivered_append, offered_append, ← List.append_assoc]
  exact (step_advances hkeeps).owed hsize howed

theorem losesNothing_of_meets {events : List StreamEvent} (h : Meets step Keeps .new events) :
    LosesNothing events := by
  constructor
  · rw [← (run_conserves h).1]
    exact List.prefix_append _ _
  · rintro before later rfl size hsize hle
    have hbefore := run_conserves (meets_append.mp h).1
    have hstart : Owed size (buffersFor size (queuedIn (run step .new before).2))
        (queuedIn (run step .new before).2).flatten (run step .new before).1
        (delivered (run step .new before).2) 0 :=
      .inr ⟨_,[],(List.append_nil _).symm,hbefore.1,hbefore.2 size⟩
    rw [run_append, delivered_append]
    obtain hdone | ⟨old,_,_,hpayload,htotal⟩ := run_owed hsize (meets_append.mp h).2 hstart
    · exact hdone
    · have hold := (buffersFor_eq_zero_iff hsize old).mp (by omega)
      rw [hold, List.append_nil] at hpayload
      exact ⟨[],by rw [List.append_nil, hpayload]⟩

/-- A step at which something is overwritten leaves less than there was. -/
theorem step_loses {e : StreamEvent} (h : ¬ s.Keeps e) :
    (delivered (s.step e).2).length + (s.step e).1.chunks.flatten.length <
      s.chunks.flatten.length + (queuedIn (s.step e).2).flatten.length := by
  cases e with
  | push | ends | synack => exact absurd trivial h
  | read room failsAfter =>
    simp only [Keeps, not_forall] at h
    obtain ⟨hroom,hrefused,c,hc,hne⟩ := h
    rw [step]
    generalize hanswer : (s.pollRead room failsAfter).1 = answer
    have hreads := pollRead_reads s room failsAfter
    rw [hanswer] at hreads
    cases hreads with
    | aborted err hsome =>
      rw [hrefused] at hsome
      cases hsome
    | taken left rest kept _ _ heq hleft hlast htaken hchunks hchunks' =>
      cases htaken with
      | put chunk later _ hpos => omega
      | idle _ _ =>
        have hlost : 0 < left.flatten.length := by
          apply List.length_pos_iff.mpr
          intro hnil
          rw [← hlast hroom] at hc
          exact hne (List.flatten_eq_nil_iff.mp hnil c hc)
        have hheld : s.chunks.flatten.length =
            left.flatten.length + (rest ++ s.withheld failsAfter).flatten.length := by
          rw [hchunks, List.flatten_append, List.length_append]
        rw [hheld, hchunks']
        simp only [delivered, List.flatMap_cons, List.flatMap_nil, idle_put, List.append_nil, List.length_nil]
        omega

theorem step_length_le (s : AnyTlsStream) (e : StreamEvent) :
    (delivered (s.step e).2).length + (s.step e).1.chunks.flatten.length ≤
      s.chunks.flatten.length + (queuedIn (s.step e).2).flatten.length := by
  by_cases hkeeps : s.Keeps e
  · have hstep := congrArg List.length (step_advances hkeeps).conserves
    rw [List.length_append, List.length_append] at hstep
    exact Nat.le_of_eq hstep
  · exact Nat.le_of_lt (step_loses hkeeps)

theorem run_length_le (s : AnyTlsStream) (events : List StreamEvent) :
    (delivered (run step s events).2).length + (run step s events).1.chunks.flatten.length ≤
      s.chunks.flatten.length + (queuedIn (run step s events).2).flatten.length := by
  induction events generalizing s with
  | nil => simp [run, delivered]
  | cons e events ih =>
    have hstep := step_length_le s e
    have hrest := ih (s.step e).1
    simp only [run, delivered_append, queuedIn_append, List.flatten_append, List.length_append]
    omega

theorem run_loses {events : List StreamEvent} (h : ¬ Meets step Keeps s events) :
    (delivered (run step s events).2).length + (run step s events).1.chunks.flatten.length <
      s.chunks.flatten.length + (queuedIn (run step s events).2).flatten.length := by
  induction events generalizing s with
  | nil => exact absurd trivial h
  | cons e events ih =>
    simp only [run, delivered_append, queuedIn_append, List.flatten_append, List.length_append]
    by_cases hkeeps : s.Keeps e
    · have hstep := step_length_le s e
      have hrest := ih fun hmeets => h ⟨hkeeps,hmeets⟩
      omega
    · have hstep := step_loses hkeeps
      have hrest := run_length_le (s.step e).1 events
      omega

/-! ## Reads with room -/

theorem pollSynack_refused (s : AnyTlsStream) : s.pollSynack.refused = none := by
  unfold pollSynack
  split
  · simp [refused, *]
  · rfl

theorem pollRead_refused (s : AnyTlsStream) (room : Nat) (failsAfter : Option Nat) :
    (s.pollRead room failsAfter).2.refused = none := by
  unfold pollRead
  cases s.refused with
  | some err => exact pollSynack_refused s
  | none => exact pollSynack_refused s

theorem offered_read (h : s.refused = none) (room : Nat) :
    offered 1 (s.step (.read (room + 1) none)).2 = 1 := by
  rw [step]
  generalize hanswer : (s.pollRead (room + 1) none).1 = answer
  have hreads := pollRead_reads s (room + 1) none
  rw [hanswer] at hreads
  cases hreads with
  | aborted err hsome =>
    rw [h] at hsome
    cases hsome
  | taken left rest kept _ _ _ _ _ htaken =>
    cases htaken with
    | put chunk later => simp [offered, StreamOutput.offers]
    | idle =>
      unfold idle
      split <;> simp [offered, StreamOutput.offers]

theorem offered_reads (rooms : List Nat) (h : s.refused = none) :
    offered 1 (run step s (rooms.map fun room => .read (room + 1) none)).2 = rooms.length := by
  induction rooms generalizing s with
  | nil => rfl
  | cons room rooms ih =>
    have hrest := ih (pollRead_refused s (room + 1) none)
    rw [List.map_cons, run, offered_append, offered_read h, List.length_cons, Nat.add_comm]
    exact congrArg (· + 1) hrest

/-- The first of the reads may come for the error of the SYNACK. -/
theorem length_le_offered_reads (s : AnyTlsStream) (room : Nat) (rooms : List Nat) :
    rooms.length ≤
      offered 1 (run step s ((room :: rooms).map fun room => .read (room + 1) none)).2 := by
  have hrest := offered_reads rooms (pollRead_refused s (room + 1) none)
  rw [List.map_cons, run, offered_append]
  exact Nat.le_trans (Nat.le_of_eq hrest.symm) (Nat.le_add_left _ _)

theorem queuedIn_reads (s : AnyTlsStream) (rooms : List Nat) :
    queuedIn (run step s (rooms.map fun room => .read (room + 1) none)).2 = [] := by
  induction rooms generalizing s with
  | nil => rfl
  | cons room rooms ih => exact ih _

theorem meets_reads (s : AnyTlsStream) (rooms : List Nat) :
    Meets step Keeps s (rooms.map fun room => .read (room + 1) none) := by
  refine meets_of_forall (fun e he s => ?_) s
  obtain ⟨room,_,rfl⟩ := List.mem_map.mp he
  intro hroom
  omega

end AnyTlsStream

open AnyTlsStream in
/-- Whatever is queued and read, nothing is lost, in the run and when it goes on with reads that
have room, exactly if no read without room went past a chunk that has bytes. -/
theorem losesNothing_iff (events : List StreamEvent) :
    (∀ rooms : List Nat, LosesNothing (events ++ rooms.map fun room => .read (room + 1) none)) ↔
      Meets step Keeps .new events := by
  constructor
  · intro h
    by_contra hlost
    let rooms := 0 :: List.replicate (buffersFor 1 (queuedIn (run step .new events).2)) 0
    have henough := length_le_offered_reads (run step .new events).1 0 rooms.tail
    rw [show rooms.tail.length = _ from List.length_replicate] at henough
    have hle := ((h rooms).complete events _ rfl 1 Nat.one_pos henough).length_le
    have hless := run_length_le (run step .new events).1
      (rooms.map fun room => .read (room + 1) none)
    have hlt := run_loses hlost
    have hnew : new.chunks.flatten.length = 0 := rfl
    rw [queuedIn_reads, List.flatten_nil, List.length_nil] at hless
    rw [run_append, delivered_append, List.length_append] at hle
    omega
  · intro h rooms
    exact losesNothing_of_meets (meets_append.mpr ⟨h,meets_reads _ rooms⟩)

/-- The rest of a chunk is overwritten by the next one when the buffer is full. -/
theorem not_losesNothing_full_buffer : ¬ LosesNothing
    [.push [1, 2], .push [3], .read 1 none, .read 0 none, .read 8 none] := by
  intro h
  exact absurd h.in_order (by decide)

end AtlasKernel.AnyTls
