import Mathlib.Data.List.AList
import AtlasKernel.Lib.Bytes
import AtlasKernel.Lib.Waiters

/-! The demultiplexer of the packet sessions: a queue of waiters for each key, and the
order of all of them. It refines one ordered list of waiters. Source:
`packet_session.rs`. -/
namespace AtlasKernel.PacketSession
open AtlasKernel.Lib
variable {σ : Type*}

/-- `anyhow::Result<Vec<u8>>`, an error by its message. -/
abbrev PacketResult := Except String Bytes

/-- `sender` stands for the channel its half belongs to. -/
structure PacketWaiter (σ : Type*) where
  requestId : UInt64
  sender : σ
deriving DecidableEq, Repr

structure PacketSessionWait (σ : Type*) where
  key : String
  requestId : UInt64
  receiver : σ
deriving DecidableEq, Repr

abbrev PendingQueues (σ : Type*) := AList fun _ : String => List (PacketWaiter σ)

structure PacketSessionState (σ : Type*) where
  pending : PendingQueues σ
  fifo : List (String × UInt64)

/-- Put a queue back under its key, unless it has become empty. -/
def putBack (pending : PendingQueues σ) (key : String) (queue : List (PacketWaiter σ)) :
    PendingQueues σ :=
  if queue.isEmpty then pending.erase key else pending.insert key queue

namespace PacketSessionState

def new : PacketSessionState σ := ⟨∅, []⟩

def pendingCount (s : PacketSessionState σ) : Nat :=
  (s.pending.entries.map (·.2.length)).sum

/-- `channel` is the fresh `oneshot::channel()`. -/
def register (s : PacketSessionState σ) (key : String) (requestId : UInt64) (channel : σ) :
    PacketSessionState σ × PacketSessionWait σ :=
  let queue := (s.pending.lookup key).getD []
  (⟨s.pending.insert key (queue ++ [⟨requestId, channel⟩]), s.fifo ++ [(key, requestId)]⟩,
    ⟨key, requestId, channel⟩)

def retainOthers (fifo : List (String × UInt64)) (key : String) (requestId : UInt64) :
    List (String × UInt64) :=
  fifo.filter fun entry => entry.1 ≠ key ∨ entry.2 ≠ requestId

def removeById (s : PacketSessionState σ) (key : String) (requestId : UInt64) :
    PacketSessionState σ :=
  ⟨match s.pending.lookup key with
    | none => s.pending
    | some queue => putBack s.pending key (queue.filter (·.requestId ≠ requestId)),
    retainOthers s.fifo key requestId⟩

def remove (s : PacketSessionState σ) (wait : PacketSessionWait σ) : PacketSessionState σ :=
  s.removeById wait.key wait.requestId

/-- The waiter `deliver` takes out. -/
def takeFirst (s : PacketSessionState σ) (key : String) :
    PacketSessionState σ × Option (PacketWaiter σ) :=
  match s.pending.lookup key with
  | none => (s, none)
  | some queue =>
    let waiter := queue.head?
    let fifo := match waiter with
      | none => s.fifo
      | some waiter => retainOthers s.fifo key waiter.requestId
    (⟨putBack s.pending key queue.tail, fifo⟩, waiter)

/-- The loop of `deliver_next`. -/
def takeNextLoop (pending : PendingQueues σ) : List (String × UInt64) →
    PacketSessionState σ × Option (PacketWaiter σ)
  | [] => (⟨pending, []⟩, none)
  | (key, requestId) :: fifo =>
    match pending.lookup key with
    | none => takeNextLoop pending fifo
    | some queue =>
      match queue.findIdx? (·.requestId = requestId) with
      | none => takeNextLoop pending fifo
      | some position => (⟨putBack pending key (queue.eraseIdx position), fifo⟩, queue[position]?)

/-- What is sent to the waiter that was taken out, and whether there was one. -/
def send (waiter : Option (PacketWaiter σ)) (result : PacketResult) :
    List (σ × PacketResult) × Bool :=
  match waiter with
  | none => ([], false)
  | some waiter => ([(waiter.sender, result)], true)

def deliver (s : PacketSessionState σ) (key : String) (result : PacketResult) :
    PacketSessionState σ × List (σ × PacketResult) × Bool :=
  let r := s.takeFirst key
  (r.1, send r.2 result)

def deliverNext (s : PacketSessionState σ) (result : PacketResult) :
    PacketSessionState σ × List (σ × PacketResult) × Bool :=
  let r := takeNextLoop s.pending s.fifo
  (r.1, send r.2 result)

def failAll (s : PacketSessionState σ) (error : String) :
    PacketSessionState σ × List (σ × PacketResult) :=
  let waiters := s.pending.entries.flatMap (·.2)
  (⟨∅, []⟩, waiters.map (·.sender, .error error))

end PacketSessionState

/-! ## Runs -/

inductive DemuxOp (σ : Type*) where
  | register (key : String) (requestId : UInt64) (channel : σ)
  | removeById (key : String) (requestId : UInt64)
  | deliver (key : String) (result : PacketResult)
  | deliverNext (result : PacketResult)
  | failAll (error : String)

/-- The channels an operation sends on, and what it returns, if anything. -/
structure DemuxOutcome (σ : Type*) where
  sent : List (σ × PacketResult)
  delivered : Option Bool
deriving DecidableEq, Repr

def PacketSessionState.step (s : PacketSessionState σ) :
    DemuxOp σ → PacketSessionState σ × DemuxOutcome σ
  | .register key requestId channel => ((s.register key requestId channel).1, ⟨[], none⟩)
  | .removeById key requestId => (s.removeById key requestId, ⟨[], none⟩)
  | .deliver key result =>
    let r := s.deliver key result
    (r.1, ⟨r.2.1, some r.2.2⟩)
  | .deliverNext result =>
    let r := s.deliverNext result
    (r.1, ⟨r.2.1, some r.2.2⟩)
  | .failAll error =>
    let r := s.failAll error
    (r.1, ⟨r.2, none⟩)

structure DemuxRun (σ : Type*) where
  state : PacketSessionState σ
  outcomes : List (DemuxOutcome σ)

def DemuxRun.next (r : DemuxRun σ) (op : DemuxOp σ) : DemuxRun σ :=
  ⟨(r.state.step op).1, r.outcomes ++ [(r.state.step op).2]⟩

def PacketSessionState.play (s : PacketSessionState σ) (ops : List (DemuxOp σ)) : DemuxRun σ :=
  ops.foldl DemuxRun.next ⟨s, []⟩

def runDemux (ops : List (DemuxOp σ)) : DemuxRun σ := PacketSessionState.new.play ops

theorem play_append (s : PacketSessionState σ) (ops more : List (DemuxOp σ)) :
    s.play (ops ++ more) =
      ⟨((s.play ops).state.play more).state,
        (s.play ops).outcomes ++ ((s.play ops).state.play more).outcomes⟩ := by
  induction more using List.reverseRecOn with
  | nil => simp [PacketSessionState.play]
  | append_singleton more op ih =>
    have hlast : ∀ (s : PacketSessionState σ) ops, s.play (ops ++ [op]) = (s.play ops).next op := by
      intro s ops
      simp [PacketSessionState.play]
    rw [← List.append_assoc, hlast, hlast, ih]
    simp [DemuxRun.next]

/-! ## The ordered list it stands for -/

abbrev PacketWaiters (σ : Type*) := List (Waiter String UInt64 σ)

def DemuxOp.spec : DemuxOp σ → WaiterOp String UInt64 σ PacketResult
  | .register key requestId channel => .register ⟨key, requestId, channel⟩
  | .removeById key requestId => .removeById key requestId
  | .deliver key result => .deliver key result
  | .deliverNext result => .deliverNext result
  | .failAll error => .failAll (.error error)

/-- The waiters with a key, as they stand in its queue. -/
def queueOf (live : PacketWaiters σ) (key : String) : List (PacketWaiter σ) :=
  (live.filter (·.key = key)).map fun w => ⟨w.id, w.sender⟩

def nonemptyQueue (queue : List (PacketWaiter σ)) : Option (List (PacketWaiter σ)) :=
  if queue.isEmpty then none else some queue

/-- The global order and the queues hold the same waiters in the same order, and no
queue is empty. -/
structure Refines (s : PacketSessionState σ) (live : PacketWaiters σ) : Prop where
  fifo : s.fifo = live.map fun w => (w.key, w.id)
  pending : ∀ key, s.pending.lookup key = nonemptyQueue (queueOf live key)

/-- The same channels get the same results; `fail_all` takes the queues in any order. -/
structure Answers (outcome : DemuxOutcome σ)
    (completed : List (Waiter String UInt64 σ × PacketResult)) : Prop where
  sent : outcome.sent.Perm (completed.map fun c => (c.1.sender, c.2))
  delivered : ∀ answer, outcome.delivered = some answer → answer = !completed.isEmpty

/-! ## One operation -/

@[simp] theorem queueOf_append (live more : PacketWaiters σ) (key : String) :
    queueOf (live ++ more) key = queueOf live key ++ queueOf more key := by
  simp [queueOf]

theorem queueOf_cons_self (w : Waiter String UInt64 σ) (live : PacketWaiters σ) :
    queueOf (w :: live) w.key = ⟨w.id, w.sender⟩ :: queueOf live w.key := by
  simp [queueOf]

theorem queueOf_cons_ne {w : Waiter String UInt64 σ} {key : String} (h : key ≠ w.key)
    (live : PacketWaiters σ) : queueOf (w :: live) key = queueOf live key := by
  simp [queueOf, h.symm]

theorem queueOf_other {live : PacketWaiters σ} {key : String} (h : ∀ w ∈ live, w.key ≠ key) :
    queueOf live key = [] := by
  simpa [queueOf] using h

@[simp] theorem nonemptyQueue_nil : nonemptyQueue ([] : List (PacketWaiter σ)) = none := rfl
@[simp] theorem nonemptyQueue_cons (w : PacketWaiter σ) (queue : List (PacketWaiter σ)) :
    nonemptyQueue (w :: queue) = some (w :: queue) := rfl

@[simp] theorem nonemptyQueue_getD (queue : List (PacketWaiter σ)) :
    (nonemptyQueue queue).getD [] = queue := by
  cases queue <;> rfl

theorem lookup_putBack (pending : PendingQueues σ) (key k : String)
    (queue : List (PacketWaiter σ)) :
    (putBack pending key queue).lookup k =
      if k = key then nonemptyQueue queue else pending.lookup k := by
  rw [putBack, nonemptyQueue]
  by_cases hk : k = key
  · subst hk
    by_cases hempty : queue.isEmpty
    · simp [hempty, AList.lookup_erase]
    · simp [hempty, AList.lookup_insert]
  · by_cases hempty : queue.isEmpty
    · simp [hempty, hk, AList.lookup_erase_ne hk]
    · simp [hempty, hk, AList.lookup_insert_ne hk]

/-- A change to the queue of one key. -/
theorem Refines.putBack {s : PacketSessionState σ} {live live' : PacketWaiters σ}
    (h : Refines s live) (key : String)
    (hother : ∀ k, k ≠ key → queueOf live' k = queueOf live k) :
    Refines ⟨putBack s.pending key (queueOf live' key), live'.map fun w => (w.key, w.id)⟩ live' := by
  refine ⟨rfl,?_⟩
  intro k
  rw [lookup_putBack]
  by_cases hk : k = key
  · rw [if_pos hk, hk]
  · rw [if_neg hk, h.pending, hother k hk]

theorem retainOthers_map (live : PacketWaiters σ) (key : String) (id : UInt64) :
    PacketSessionState.retainOthers (live.map fun w => (w.key, w.id)) key id =
      (live.filter (!Waiters.named key id ·)).map fun w => (w.key, w.id) := by
  rw [PacketSessionState.retainOthers, List.filter_map]
  congr 1
  apply List.filter_congr
  intro w _
  simp [Waiters.named]

theorem register_refines {s : PacketSessionState σ} {live : PacketWaiters σ} (h : Refines s live)
    (key : String) (id : UInt64) (channel : σ) :
    Refines (s.register key id channel).1 (live ++ [⟨key, id, channel⟩]) := by
  refine ⟨?_,?_⟩
  · simp [PacketSessionState.register, h.fifo]
  · intro k
    simp only [PacketSessionState.register, h.pending, nonemptyQueue_getD, queueOf_append]
    by_cases hk : k = key
    · subst hk
      rw [AList.lookup_insert, queueOf_cons_self]
      simp [nonemptyQueue, queueOf]
    · rw [AList.lookup_insert_ne hk, h.pending, queueOf_cons_ne hk]
      simp [queueOf]

theorem removeById_refines {s : PacketSessionState σ} {live : PacketWaiters σ}
    (h : Refines s live) (key : String) (id : UInt64) :
    Refines (s.removeById key id) (live.filter (!Waiters.named key id ·)) := by
  have hother : ∀ k, k ≠ key →
      queueOf (live.filter (!Waiters.named key id ·)) k = queueOf live k := by
    intro k hk
    simp only [queueOf, List.filter_filter]
    congr 1
    apply List.filter_congr
    intro w _
    by_cases hw : w.key = k
    · simp [hw, Waiters.named, hk]
    · simp [hw]
  have hqueue : queueOf (live.filter (!Waiters.named key id ·)) key =
      (queueOf live key).filter (·.requestId ≠ id) := by
    simp only [queueOf, List.filter_filter, List.filter_map]
    congr 1
    apply List.filter_congr
    intro w _
    by_cases hw : w.key = key <;> simp [hw, Waiters.named]
  rw [PacketSessionState.removeById]
  rw [h.fifo, retainOthers_map, h.pending]
  cases hq : queueOf live key with
  | nil =>
    refine ⟨rfl,?_⟩
    intro k
    rw [hq] at hqueue
    simp only [nonemptyQueue, List.isEmpty_nil, if_true, h.pending]
    by_cases hk : k = key
    · rw [hk, hqueue, hq]
      rfl
    · rw [hother k hk]
  | cons w queue =>
    rw [← hq]
    have hput := h.putBack key hother
    rw [hqueue] at hput
    rw [nonemptyQueue, hq] at *
    exact hput

/-- Taking the oldest waiter with a key out, whose key and id no other waiter has. -/
theorem takeFirst_refines {s : PacketSessionState σ} {live : PacketWaiters σ}
    (h : Refines s live) (hpairs : (live.map fun w => (w.key, w.id)).Nodup) (key : String) :
    Refines (s.takeFirst key).1 (live.eraseP (·.key = key)) ∧
      (s.takeFirst key).2 = (live.find? (·.key = key)).map fun w => ⟨w.id, w.sender⟩ := by
  rw [PacketSessionState.takeFirst]
  rw [h.pending]
  cases hfind : live.find? (·.key = key) with
  | none =>
    have hno : ∀ w ∈ live, w.key ≠ key := by simpa using hfind
    rw [queueOf_other hno, List.eraseP_of_forall_not (by simpa using hno)]
    exact ⟨h,rfl⟩
  | some w =>
    obtain ⟨before,after,rfl,rfl,hbefore,herase⟩ := Waiters.find_oldest hfind
    have hqueue : queueOf (before ++ w :: after) w.key =
        ⟨w.id, w.sender⟩ :: queueOf (before ++ after) w.key := by
      rw [queueOf_append, queueOf_append, queueOf_other hbefore, queueOf_cons_self]
      rfl
    have hother : ∀ k, k ≠ w.key →
        queueOf (before ++ after) k = queueOf (before ++ w :: after) k := by
      intro k hk
      rw [queueOf_append, queueOf_append, queueOf_cons_ne hk]
    have hfifo : PacketSessionState.retainOthers s.fifo w.key w.id =
        (before ++ after).map fun w => (w.key, w.id) := by
      rw [h.fifo, retainOthers_map]
      congr 1
      have hnot : ∀ v ∈ before ++ after, (!Waiters.named w.key w.id v) = true := by
        intro v hv
        have hne : (v.key, v.id) ≠ (w.key, w.id) := by
          rw [List.map_append, List.map_cons, List.nodup_middle, List.nodup_cons] at hpairs
          intro heq
          apply hpairs.1
          rw [← heq, ← List.map_append]
          exact List.mem_map_of_mem hv
        have hnamed : ¬ (v.key = w.key ∧ v.id = w.id) := fun heq => hne (by rw [heq.1, heq.2])
        rw [Waiters.named, decide_eq_false hnamed]
        rfl
      rw [List.filter_append, List.filter_cons_of_neg (by simp [Waiters.named]),
        ← List.filter_append]
      exact List.filter_eq_self.mpr hnot
    rw [hqueue, herase]
    simp only [nonemptyQueue_cons, List.head?_cons, List.tail_cons, hfifo]
    exact ⟨h.putBack w.key hother,rfl⟩

/-- The global order never names a waiter that has gone: the first turn of the loop ends it. -/
theorem takeNextLoop_refines {s : PacketSessionState σ} {live : PacketWaiters σ}
    (h : Refines s live) :
    Refines (PacketSessionState.takeNextLoop s.pending s.fifo).1 live.tail ∧
      (PacketSessionState.takeNextLoop s.pending s.fifo).2 =
        live.head?.map fun w => ⟨w.id, w.sender⟩ := by
  cases live with
  | nil =>
    rw [h.fifo]
    exact ⟨⟨rfl,h.pending⟩,rfl⟩
  | cons w live =>
    have hqueue := queueOf_cons_self w live
    have hother : ∀ k, k ≠ w.key → queueOf live k = queueOf (w :: live) k :=
      fun k hk => (queueOf_cons_ne hk live).symm
    have hput := h.putBack w.key hother
    rw [h.fifo]
    simp only [List.map_cons, PacketSessionState.takeNextLoop, h.pending, hqueue,
      nonemptyQueue_cons, List.findIdx?_cons, decide_true, if_true, List.eraseIdx_zero,
      List.tail_cons]
    exact ⟨hput,rfl⟩

/-- Collecting a list key by key. -/
theorem flatMap_filter_perm {α κ : Type*} [DecidableEq κ] (f : α → κ) {keys : List κ}
    (hkeys : keys.Nodup) {l : List α} (hcover : ∀ a ∈ l, f a ∈ keys) :
    (keys.flatMap fun k => l.filter (f · = k)).Perm l := by
  induction keys generalizing l with
  | nil =>
    have hempty : l = [] := List.eq_nil_iff_forall_not_mem.mpr fun a ha => by cases hcover a ha
    rw [hempty]
    exact List.Perm.refl _
  | cons k keys ih =>
    obtain ⟨hk,hkeys⟩ := List.nodup_cons.mp hkeys
    have hrest : keys.flatMap (fun k' => l.filter (f · = k')) =
        keys.flatMap fun k' => (l.filter fun a => !decide (f a = k)).filter (f · = k') := by
      apply List.flatMap_congr
      intro k' hk'
      rw [List.filter_filter]
      apply List.filter_congr
      intro a _
      by_cases ha : f a = k'
      · have hne : k' ≠ k := fun heq => hk (heq ▸ hk')
        simp [ha, hne]
      · simp [ha]
    have hcover' : ∀ a ∈ l.filter (fun a => !decide (f a = k)), f a ∈ keys := by
      intro a ha
      obtain ⟨hal,hne⟩ := List.mem_filter.mp ha
      have hmem := hcover a hal
      rw [List.mem_cons] at hmem
      exact hmem.resolve_left (by simpa using hne)
    rw [List.flatMap_cons, hrest]
    exact ((ih hkeys hcover').append_left _).trans (List.filter_append_perm (f · = k) l)

theorem pending_waiters_perm {s : PacketSessionState σ} {live : PacketWaiters σ}
    (h : Refines s live) :
    (s.pending.entries.flatMap (·.2)).Perm (live.map fun w => ⟨w.id, w.sender⟩) := by
  have hqueue : ∀ entry ∈ s.pending.entries, entry.2 = queueOf live entry.1 := by
    intro entry hentry
    have hlookup := AList.mem_lookup_iff.mpr hentry
    rw [h.pending, nonemptyQueue] at hlookup
    split at hlookup
    · cases hlookup
    · exact (Option.mem_some_iff.mp hlookup).symm
  have hentries : s.pending.entries.flatMap (·.2) =
      (s.pending.keys.flatMap fun key => live.filter (·.key = key)).map
        fun w => ⟨w.id, w.sender⟩ := by
    rw [List.flatMap_congr hqueue, List.map_flatMap, AList.keys, List.keys, List.flatMap_map]
    rfl
  have hcover : ∀ w ∈ live, w.key ∈ s.pending.keys := by
    intro w hw
    rw [← AList.mem_keys, ← AList.lookup_isSome, h.pending]
    have hmem : w ∈ live.filter (·.key = w.key) := List.mem_filter.mpr ⟨hw,by simp⟩
    have hmem' : (⟨w.id, w.sender⟩ : PacketWaiter σ) ∈ queueOf live w.key :=
      List.mem_map_of_mem hmem
    cases hq : queueOf live w.key with
    | nil => rw [hq] at hmem'; cases hmem'
    | cons v queue => rfl
  rw [hentries]
  exact (flatMap_filter_perm _ s.pending.keys_nodup hcover).map _

theorem pendingCount_eq {s : PacketSessionState σ} {live : PacketWaiters σ} (h : Refines s live) :
    s.pendingCount = live.length := by
  have hlength := (pending_waiters_perm h).length_eq
  rwa [List.length_flatMap, List.length_map] at hlength

/-- Every operation does to the list what it does to the queues and the global order. -/
theorem step_refines {s : PacketSessionState σ} {live : PacketWaiters σ} (h : Refines s live)
    (hpairs : (live.map fun w => (w.key, w.id)).Nodup) (op : DemuxOp σ) :
    Refines (s.step op).1 (Waiters.step live op.spec).1 ∧
      Answers (s.step op).2 (Waiters.step live op.spec).2 := by
  cases op with
  | register key id channel =>
    exact ⟨register_refines h key id channel,List.Perm.refl _,fun _ hno => by cases hno⟩
  | removeById key id =>
    exact ⟨removeById_refines h key id,List.Perm.refl _,fun _ hno => by cases hno⟩
  | deliver key result =>
    obtain ⟨hstate,hwaiter⟩ := takeFirst_refines h hpairs key
    refine ⟨hstate,?_⟩
    simp only [PacketSessionState.step, PacketSessionState.deliver, hwaiter, DemuxOp.spec,
      Waiters.step]
    cases live.find? (·.key = key) with
    | none => exact ⟨List.Perm.refl _,fun answer h => by cases h; rfl⟩
    | some w => exact ⟨List.Perm.refl _,fun answer h => by cases h; rfl⟩
  | deliverNext result =>
    obtain ⟨hstate,hwaiter⟩ := takeNextLoop_refines h
    refine ⟨hstate,?_⟩
    simp only [PacketSessionState.step, PacketSessionState.deliverNext, hwaiter, DemuxOp.spec,
      Waiters.step]
    cases live.head? with
    | none => exact ⟨List.Perm.refl _,fun answer h => by cases h; rfl⟩
    | some w => exact ⟨List.Perm.refl _,fun answer h => by cases h; rfl⟩
  | failAll error =>
    have hperm := (pending_waiters_perm h).map fun w => (w.sender, (.error error : PacketResult))
    refine ⟨⟨rfl,fun _ => rfl⟩,?_,fun _ hno => by cases hno⟩
    simpa [PacketSessionState.step, PacketSessionState.failAll, DemuxOp.spec, Waiters.step,
      Function.comp_def] using hperm

/-! ## Whole runs -/

def DemuxOp.registeredId : DemuxOp σ → Option UInt64
  | .register _ requestId _ => some requestId
  | _ => none

/-- The ids of the waiters a run registers. -/
def registeredIds (ops : List (DemuxOp σ)) : List UInt64 := ops.filterMap DemuxOp.registeredId

theorem registered_ids (ops : List (DemuxOp σ)) :
    ((ops.map DemuxOp.spec).flatMap Waiters.registered).map (·.id) = registeredIds ops := by
  induction ops with
  | nil => rfl
  | cons op ops ih =>
    rw [List.map_cons, List.flatMap_cons, List.map_append, ih]
    cases op <;> simp [registeredIds, DemuxOp.registeredId, DemuxOp.spec, Waiters.registered,
      List.filterMap_cons]

/-- The books an ordered list keeps of a run. -/
def booksOf (live : PacketWaiters σ) (ops : List (DemuxOp σ)) :
    Waiters.Books String UInt64 σ PacketResult :=
  (Waiters.Books.start live).play (ops.map DemuxOp.spec)

theorem booksOf_registered (live : PacketWaiters σ) (ops : List (DemuxOp σ)) :
    (booksOf live ops).registered.map (·.id) = live.map (·.id) ++ registeredIds ops := by
  rw [booksOf, Waiters.Books.play_registered, List.map_append, registered_ids]
  rfl

theorem booksOf_balanced (live : PacketWaiters σ) (ops : List (DemuxOp σ)) :
    Waiters.Balanced (booksOf live ops) := (Waiters.start_balanced live).play _

theorem live_pairs_nodup {live : PacketWaiters σ} {ops : List (DemuxOp σ)}
    (hids : (live.map (·.id) ++ registeredIds ops).Nodup) :
    ((booksOf live ops).live.map fun w => (w.key, w.id)).Nodup := by
  have hlive := (booksOf_balanced live ops).order.map (·.id)
  rw [booksOf_registered] at hlive
  apply List.Nodup.of_map Prod.snd
  rw [List.map_map]
  exact hids.sublist hlive

/-- From any state that refines an ordered list, a run refines the run of the list. -/
theorem play_refines {s : PacketSessionState σ} {live : PacketWaiters σ} (h : Refines s live)
    {ops : List (DemuxOp σ)} (hids : (live.map (·.id) ++ registeredIds ops).Nodup) :
    Refines (s.play ops).state (booksOf live ops).live ∧
      List.Forall₂ Answers (s.play ops).outcomes (booksOf live ops).outcomes := by
  induction ops using List.reverseRecOn with
  | nil => exact ⟨h,.nil⟩
  | append_singleton ops op ih =>
    have hids' : (live.map (·.id) ++ registeredIds ops).Nodup := by
      rw [registeredIds, List.filterMap_append, ← List.append_assoc] at hids
      exact hids.of_append_left
    obtain ⟨hstate,houtcomes⟩ := ih hids'
    obtain ⟨hnext,hanswer⟩ := step_refines hstate (live_pairs_nodup hids') op
    have hrun : s.play (ops ++ [op]) = (s.play ops).next op := by
      simp [PacketSessionState.play]
    have hspec : booksOf live (ops ++ [op]) = (booksOf live ops).enter op.spec := by
      simp [booksOf]
    rw [hrun, hspec]
    exact ⟨hnext,List.rel_append houtcomes (.cons hanswer .nil)⟩

theorem new_refines : Refines (.new : PacketSessionState σ) [] := ⟨rfl,fun _ => rfl⟩

/-- With distinct waiter ids, every run of the demultiplexer is a run of one ordered list
of waiters: the queues and the global order hold the live waiters in the order of their
registration, every operation completes the same waiters with the same results, and no
waiter is lost or completed twice. -/
theorem demux_refines_ordered_waiters (ops : List (DemuxOp σ))
    (hids : (registeredIds ops).Nodup) :
    let demux := runDemux ops
    let waiters := Waiters.run (ops.map DemuxOp.spec)
    Refines demux.state waiters.live ∧ List.Forall₂ Answers demux.outcomes waiters.outcomes ∧
      waiters.live.Sublist waiters.registered ∧
      waiters.registered.Perm (waiters.live ++ waiters.removed ++ waiters.completed) ∧
      (waiters.live ++ waiters.removed ++ waiters.completed).Nodup := by
  obtain ⟨hstate,houtcomes⟩ := play_refines new_refines hids
  obtain ⟨horder,haccount⟩ := booksOf_balanced [] ops
  have hregistered : (booksOf [] ops).registered.Nodup := by
    apply List.Nodup.of_map (·.id)
    rwa [booksOf_registered]
  exact ⟨hstate,houtcomes,horder,haccount,haccount.nodup_iff.mp hregistered⟩

/-- Three waiters, two of them with one key: one is answered by its key, the last of that
key is removed, and the other key goes by the global order. -/
def sampleOps : List (DemuxOp Nat) :=
  [.register "a.example:53" 1 10, .register "b.example:53" 2 20, .register "a.example:53" 3 30,
    .deliver "a.example:53" (.ok [1]), .removeById "a.example:53" 3, .deliverNext (.ok [2]),
    .deliver "b.example:53" (.ok [3]), .failAll "VLESS XUDP worker closed"]

theorem demux_refines_ordered_waiters_sample :
    (runDemux sampleOps).outcomes.map (·.sent) =
      [[], [], [], [(10, .ok [1])], [], [(20, .ok [2])], [], []] ∧
    Refines (runDemux sampleOps).state (Waiters.run (sampleOps.map DemuxOp.spec)).live :=
  ⟨by decide +kernel,(demux_refines_ordered_waiters sampleOps (by decide +kernel)).1⟩

end AtlasKernel.PacketSession
