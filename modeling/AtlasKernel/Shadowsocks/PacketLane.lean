import AtlasKernel.Lib.Steps
import AtlasKernel.PacketSession.Demux

/-! A packet lane: one connection that the sends of the lane share, and the task that reads
from it. A lane runs over a stream with UoT framing or over a UDP socket. Its sends, its
readers and the clock take their steps in any order; what a send does between two of its
awaits is a step. Source: `adapter/shadowsocks/uot.rs`, `adapter/shadowsocks/direct_udp.rs`. -/
namespace AtlasKernel.Shadowsocks
open AtlasKernel.Lib AtlasKernel.PacketSession

inductive PacketConn where
  | uot
  | directUdp
deriving DecidableEq, Repr

namespace PacketConn

/-- In nanoseconds. -/
def idleTimeout : PacketConn → Nat
  | .uot => 45 * 10 ^ 9
  | .directUdp => 120 * 10 ^ 9

def resetError : PacketConn → String
  | .uot => "UoT packet connection was reset"
  | .directUdp => "direct UDP packet connection was reset"

def closedError : PacketConn → String
  | .uot => "UoT packet connection closed before a response arrived"
  | .directUdp => "direct UDP packet connection closed before a response arrived"

def timeoutError : PacketConn → String
  | .uot => "UoT packet response timed out"
  | .directUdp => "direct UDP packet response timed out"

/-- Over a stream a packet is encoded before anything else. -/
def encodeFirst : PacketConn → Except String Unit → Except String Unit
  | .uot, packet => packet
  | .directUdp, _ => .ok ()

/-- For the socket it is encoded when `last_used` has been refreshed. -/
def encodeLater : PacketConn → Except String Unit → Except String Unit
  | .uot, _ => .ok ()
  | .directUdp, packet => packet

theorem idleTimeout_pos (kind : PacketConn) : 0 < kind.idleTimeout := by cases kind <;> decide

end PacketConn

/-- How far a send has come. From `opening` to `ready` it holds the lock of the state, and
over a stream until it has written. -/
inductive SendStage where
  | locking
  | opening
  | ready
  | writing
  | waiting
  | closing (error : String)
  | returned
deriving DecidableEq, Repr

structure LaneSend (α : Type*) where
  targetKey : String
  address : α
  packet : Except String Unit
  requestId : UInt64
  stage : SendStage
deriving DecidableEq, Repr

/-- An aborted task may go on until its next await. -/
inductive ReadTask where
  | running
  | aborted
  | ended
deriving DecidableEq, Repr

def ReadTask.abort : ReadTask → ReadTask
  | .running => .aborted
  | task => task

/-- A connection goes by the number of its reader, a send by its own, and so does the
channel of its waiter. -/
structure PacketLane (α : Type*) where
  kind : PacketConn
  now : Nat
  connection : Option Nat
  address : α
  readTask : Option Nat
  nextRequestId : UInt64
  lastUsed : Nat
  lock : Option Nat
  sends : List (LaneSend α)
  readers : List ReadTask
  pending : PacketSessionState Nat
  answers : List (Nat × PacketResult)

/-- What `open_uot_stream`, or `open_direct_udp_socket` and `direct_udp_packet_decoder`,
come to. -/
inductive ConnectOutcome where
  | connected
  | failed (error : String)
  | noDecoder (error : String)
deriving DecidableEq, Repr

inductive LaneEvent (α : Type*) where
  | send (targetKey : String) (address : α) (packet : Except String Unit)
  | lockState (send : Nat)
  | connect (send : Nat) (outcome : ConnectOutcome)
  | register (send : Nat)
  | written (send : Nat) (result : Except String Unit)
  | wake (send : Nat)
  | timesOut (send : Nat)
  | close (send : Nat)
  | abandon (send : Nat)
  | packet (reader : Nat) (targetKey : String) (payload : Bytes)
  | readFails (reader : Nat) (error : String)
  | stopped (reader : Nat)
  | elapse (nanos : Nat)
deriving DecidableEq, Repr

/-- A send goes on with the connection it has found, or returns. -/
inductive LaneOutput where
  | reuses (send connection : Nat)
  | returns (send : Nat) (result : PacketResult)
deriving DecidableEq, Repr

namespace PacketLane
variable {α : Type*}

def new (kind : PacketConn) (unspecified : α) : PacketLane α :=
  ⟨kind, 0, none, unspecified, none, 0, 0, none, [], [], .new, []⟩

def sendAt (s : PacketLane α) (send : Nat) (stage : SendStage) : Option (LaneSend α) :=
  (s.sends[send]?).filter (·.stage = stage)

def setStage (s : PacketLane α) (send : Nat) (call : LaneSend α) (stage : SendStage) :
    PacketLane α :=
  { s with sends := s.sends.set send { call with stage := stage } }

def unlock (s : PacketLane α) (send : Nat) : PacketLane α :=
  { s with lock := s.lock.filter (· ≠ send) }

def returns (s : PacketLane α) (send : Nat) (call : LaneSend α) (result : PacketResult) :
    PacketLane α × List LaneOutput :=
  ((s.unlock send).setStage send call .returned, [.returns send result])

/-- `last_used.elapsed() >= IDLE_TIMEOUT` -/
def expired (s : PacketLane α) : Bool := s.kind.idleTimeout ≤ s.now - s.lastUsed

/-- The connection that a send to this address need not open. -/
def reusable [DecidableEq α] (s : PacketLane α) (address : α) : Option Nat :=
  s.connection.filter fun _ => s.address = address && !s.expired

def failAll (s : PacketLane α) (error : String) : PacketLane α :=
  { s with
    pending := (s.pending.failAll error).1
    answers := s.answers ++ (s.pending.failAll error).2 }

def abortReadTask (s : PacketLane α) : List ReadTask :=
  match s.readTask with
  | none => s.readers
  | some reader => s.readers.modify reader ReadTask.abort

def resetState (s : PacketLane α) : PacketLane α :=
  { s with readTask := none, readers := s.abortReadTask, connection := none }.failAll
    s.kind.resetError

def answer (s : PacketLane α) (send : Nat) : Option PacketResult :=
  (s.answers.find? (·.1 = send)).map (·.2)

/-- The waiter's sender has not been dropped. -/
def waits (s : PacketLane α) (call : LaneSend α) : Bool :=
  ((s.pending.pending.lookup call.targetKey).getD []).any (·.requestId = call.requestId)

def forget (s : PacketLane α) (call : LaneSend α) : PacketLane α :=
  { s with pending := s.pending.removeById call.targetKey call.requestId }

/-- `true` where a read error of this reader can still come. -/
def reads (s : PacketLane α) (reader : Nat) : Bool :=
  s.readers[reader]? = some .running || s.readers[reader]? = some .aborted

def step [DecidableEq α] (s : PacketLane α) : LaneEvent α → PacketLane α × List LaneOutput
  | .send targetKey address packet =>
    match s.kind.encodeFirst packet with
    | .error err =>
      ({ s with sends := s.sends ++ [⟨targetKey, address, packet, 0, .returned⟩] },
        [.returns s.sends.length (.error err)])
    | .ok () => ({ s with sends := s.sends ++ [⟨targetKey, address, packet, 0, .locking⟩] }, [])
  | .lockState send =>
    match s.lock, s.sendAt send .locking with
    | none, some call =>
      match s.reusable call.address with
      | some connection =>
        ({ s with lock := some send }.setStage send call .ready, [.reuses send connection])
      | none => ({ s.resetState with lock := some send }.setStage send call .opening, [])
    | _, _ => (s, [])
  | .connect send outcome =>
    match s.sendAt send .opening with
    | none => (s, [])
    | some call =>
      match outcome with
      | .failed err => s.returns send call (.error err)
      | .noDecoder err => { s with address := call.address }.returns send call (.error err)
      | .connected =>
        ({ s with
          address := call.address
          connection := some s.readers.length
          readTask := some s.readers.length
          readers := s.readers ++ [ReadTask.running] }.setStage send call .ready, [])
  | .register send =>
    match s.sendAt send .ready with
    | none => (s, [])
    | some call =>
      match s.kind.encodeLater call.packet with
      | .error err => { s with lastUsed := s.now }.returns send call (.error err)
      | .ok () =>
        ({ s with
          lastUsed := s.now
          nextRequestId := s.nextRequestId + 1
          lock := if s.kind = PacketConn.uot then s.lock else none
          pending := (s.pending.register call.targetKey s.nextRequestId send).1 }.setStage send
            { call with requestId := s.nextRequestId } .writing, [])
  | .written send result =>
    match s.sendAt send .writing with
    | none => (s, [])
    | some call =>
      match s.kind, result with
      | _, .ok () => ((s.unlock send).setStage send call .waiting, [])
      | .uot, .error err => (s.forget call).resetState.returns send call (.error err)
      | .directUdp, .error err => ((s.forget call).setStage send call (.closing err), [])
  | .wake send =>
    match s.sendAt send .waiting with
    | none => (s, [])
    | some call =>
      match s.answer send with
      | some result => s.returns send call result
      | none =>
        if s.waits call then (s, [])
        else ((s.forget call).setStage send call (.closing s.kind.closedError), [])
  | .timesOut send =>
    match s.sendAt send .waiting with
    | none => (s, [])
    | some call =>
      match s.answer send with
      | some result => s.returns send call result
      | none => (s.forget call).returns send call (.error s.kind.timeoutError)
  | .close send =>
    match s.lock, s.sends[send]? with
    | none, some call =>
      match call.stage with
      | .closing err => s.resetState.returns send call (.error err)
      | _ => (s, [])
    | _, _ => (s, [])
  | .abandon send =>
    match s.sends[send]? with
    | none => (s, [])
    | some call =>
      -- from `ready` to its write a send does not await
      if call.stage = .ready then (s, []) else ((s.unlock send).setStage send call .returned, [])
  | .packet reader targetKey payload =>
    if s.reads reader then
      ({ s with
        pending := (s.pending.deliver targetKey (.ok payload)).1
        answers := s.answers ++ (s.pending.deliver targetKey (.ok payload)).2.1 }, [])
    else (s, [])
  | .readFails reader err =>
    if s.reads reader then
      ({ s with readers := s.readers.set reader .ended }.failAll err, [])
    else (s, [])
  | .stopped reader =>
    if s.readers[reader]? = some .aborted then
      ({ s with readers := s.readers.set reader .ended }, [])
    else (s, [])
  | .elapse nanos => ({ s with now := s.now + nanos }, [])

/-! ## The reader of an open lane -/

/-- A lane that is considered open has its reader at work. -/
def Recovers (s : PacketLane α) : Prop :=
  ∀ connection, s.connection = some connection → s.expired = false →
    s.readTask = some connection ∧ s.readers[connection]? = some .running

/-- A send has looked at the connection and has not yet refreshed `last_used`. -/
def refreshing (s : PacketLane α) : Bool := s.sends.any (·.stage = .ready)

/-- A read error comes only from a connection that the next send will not find open. -/
def Settles (s : PacketLane α) : LaneEvent α → Prop
  | .readFails reader _ => s.connection = some reader → s.expired = true ∧ s.refreshing = false
  | _ => True

instance (s : PacketLane α) : (event : LaneEvent α) → Decidable (s.Settles event)
  | .readFails reader _ => inferInstanceAs (Decidable (s.connection = some reader → _))
  | .send .. | .lockState _ | .connect .. | .register _ | .written .. | .wake _ | .timesOut _
  | .close _ | .abandon _ | .packet .. | .stopped _ | .elapse _ => .isTrue trivial

structure Inv (s : PacketLane α) : Prop where
  task : s.readTask = s.connection
  running : ∀ connection, s.connection = some connection →
    s.expired = false ∨ s.refreshing = true → s.readers[connection]? = some .running


variable {s s' : PacketLane α} {connection : Nat}

theorem new_inv (kind : PacketConn) (unspecified : α) : (new kind unspecified).Inv :=
  ⟨rfl, nofun⟩

theorem Inv.recovers (h : s.Inv) : s.Recovers := fun connection hconnection hexpired =>
  ⟨h.task.trans hconnection, h.running connection hconnection (.inl hexpired)⟩

theorem any_ready_set {sends : List (LaneSend α)} {send : Nat} {call : LaneSend α}
    (hstage : call.stage ≠ .ready) (h : (sends.set send call).any (·.stage = .ready) = true) :
    sends.any (·.stage = .ready) = true := by
  obtain ⟨other,hother,hready⟩ := List.any_eq_true.mp h
  refine List.any_eq_true.mpr ⟨other, ?_, hready⟩
  cases List.mem_or_eq_of_mem_set hother with
  | inl hmem => exact hmem
  | inr heq => exact absurd (of_decide_eq_true hready) (heq ▸ hstage)

/-- What leaves the connection and its reader alone, and refreshes nothing. -/
theorem Inv.same (h : s.Inv) (hconnection : s'.connection = s.connection)
    (htask : s'.readTask = s.readTask) (hreaders : s'.readers = s.readers)
    (hexpired : s'.expired = false → s.expired = false ∨ s.refreshing = true)
    (hrefreshing : s'.refreshing = true → s.refreshing = true) : s'.Inv := by
  refine ⟨by rw [htask, hconnection, h.task], fun connection hc hopen => ?_⟩
  rw [hreaders]
  refine h.running connection (hconnection ▸ hc) ?_
  cases hopen with
  | inl hfresh => exact hexpired hfresh
  | inr hready => exact .inr (hrefreshing hready)

theorem Inv.moveOn (h : s.Inv) {send : Nat} (call : LaneSend α) {stage : SendStage}
    (hstage : stage ≠ .ready) : (s.setStage send call stage).Inv :=
  h.same rfl rfl rfl .inl (any_ready_set hstage)

theorem Inv.returns (h : s.Inv) (send : Nat) (call : LaneSend α) (result : PacketResult) :
    (s.returns send call result).1.Inv := by
  have hunlock : (s.unlock send).Inv := h.same rfl rfl rfl .inl id
  exact hunlock.moveOn call nofun

theorem Inv.forget (h : s.Inv) (call : LaneSend α) : (s.forget call).Inv :=
  h.same rfl rfl rfl .inl id

/-- Without a connection nothing is open. -/
theorem Inv.unconnected (htask : s.readTask = none) (hconnection : s.connection = none) :
    s.Inv :=
  ⟨htask.trans hconnection.symm, fun _ h => absurd (hconnection.symm.trans h) nofun⟩

theorem resetState_inv (s : PacketLane α) : s.resetState.Inv := .unconnected rfl rfl

/-! ## Every step -/

variable [DecidableEq α]

theorem Inv.send (h : s.Inv) (targetKey : String) (address : α) (packet : Except String Unit) :
    (s.step (.send targetKey address packet)).1.Inv := by
  have happend (stage : SendStage) (hstage : stage ≠ .ready) :
      Inv { s with sends := s.sends ++ [⟨targetKey, address, packet, 0, stage⟩] } := by
    refine h.same rfl rfl rfl .inl fun hready => ?_
    simpa [refreshing, hstage] using hready
  simp only [step]
  split
  · exact happend .returned nofun
  · exact happend .locking nofun

theorem reusable_some {address : α} {connection : Nat}
    (h : s.reusable address = some connection) :
    s.connection = some connection ∧ s.expired = false := by
  obtain ⟨hconnection,hopen⟩ := Option.filter_eq_some_iff.mp h
  exact ⟨hconnection, by simpa using (Bool.and_eq_true_iff.mp hopen).2⟩

theorem Inv.lockState (h : s.Inv) (send : Nat) : (s.step (.lockState send)).1.Inv := by
  rw [step]
  split
  case h_2 => exact h
  case h_1 call hlock hsend =>
    split
    case h_1 connection hreuse =>
      obtain ⟨hconnection,hfresh⟩ := reusable_some hreuse
      exact ⟨h.task, fun other hother _ => h.running other hother (.inl hfresh)⟩
    case h_2 => exact .unconnected rfl rfl

theorem Inv.connect (h : s.Inv) (send : Nat) (outcome : ConnectOutcome) :
    (s.step (.connect send outcome)).1.Inv := by
  rw [step]
  split
  case h_1 => exact h
  case h_2 call hsend =>
    cases outcome with
    | failed err => exact h.returns send call _
    | noDecoder err =>
      have haddress : Inv { s with address := call.address } := h.same rfl rfl rfl .inl id
      exact haddress.returns send call _
    | connected =>
      refine ⟨rfl, fun connection hconnection _ => ?_⟩
      cases hconnection
      exact List.getElem?_concat_length

theorem Inv.register (h : s.Inv) (send : Nat) : (s.step (.register send)).1.Inv := by
  rw [step]
  split
  case h_1 => exact h
  case h_2 call hsend =>
    have hready : s.refreshing = true := by
      obtain ⟨hcall,hstage⟩ := Option.filter_eq_some_iff.mp hsend
      exact List.any_eq_true.mpr ⟨call, List.mem_of_getElem? hcall, hstage⟩
    split
    · have hfresh : Inv { s with lastUsed := s.now } :=
        h.same rfl rfl rfl (fun _ => .inr hready) id
      exact hfresh.returns send call _
    · exact h.same rfl rfl rfl (fun _ => .inr hready) (any_ready_set nofun)

theorem Inv.written (h : s.Inv) (send : Nat) (result : Except String Unit) :
    (s.step (.written send result)).1.Inv := by
  rw [step]
  split
  case h_1 => exact h
  case h_2 call hsend =>
    split
    · exact h.same rfl rfl rfl .inl (any_ready_set nofun)
    · exact ((s.forget call).resetState_inv).returns send call _
    · exact (h.forget call).moveOn call nofun

theorem Inv.wake (h : s.Inv) (send : Nat) : (s.step (.wake send)).1.Inv := by
  rw [step]
  split
  case h_1 => exact h
  case h_2 call hsend =>
    split
    · exact h.returns send call _
    · split
      · exact h
      · exact (h.forget call).moveOn call nofun

theorem Inv.timesOut (h : s.Inv) (send : Nat) : (s.step (.timesOut send)).1.Inv := by
  rw [step]
  split
  case h_1 => exact h
  case h_2 call hsend =>
    split
    · exact h.returns send call _
    · exact (h.forget call).returns send call _

theorem Inv.close (h : s.Inv) (send : Nat) : (s.step (.close send)).1.Inv := by
  rw [step]
  split
  case h_2 => exact h
  case h_1 call hlock hsend =>
    split
    · exact s.resetState_inv.returns send call _
    · exact h

theorem Inv.abandon (h : s.Inv) (send : Nat) : (s.step (.abandon send)).1.Inv := by
  rw [step]
  split
  case h_1 => exact h
  case h_2 call hsend =>
    split
    · exact h
    · exact h.same rfl rfl rfl .inl (any_ready_set nofun)

theorem Inv.packet (h : s.Inv) (reader : Nat) (targetKey : String) (payload : Bytes) :
    (s.step (.packet reader targetKey payload)).1.Inv := by
  rw [step]
  split
  · exact h.same rfl rfl rfl .inl id
  · exact h

/-- The reader that ends is not the one of the open lane. -/
theorem Inv.readFails (h : s.Inv) (reader : Nat) (err : String)
    (hset : s.Settles (.readFails reader err)) : (s.step (.readFails reader err)).1.Inv := by
  rw [step]
  split
  case isFalse => exact h
  case isTrue =>
    refine ⟨h.task, fun connection hconnection hopen => ?_⟩
    have hne : reader ≠ connection := by
      intro heq
      obtain ⟨hexpired,hready⟩ := hset (heq ▸ hconnection)
      cases hopen with
      | inl hfresh => exact absurd (hexpired.symm.trans hfresh) nofun
      | inr hrefreshing => exact absurd (hready.symm.trans hrefreshing) nofun
    exact (List.getElem?_set_ne hne).trans (h.running connection hconnection hopen)

theorem Inv.stopped (h : s.Inv) (reader : Nat) : (s.step (.stopped reader)).1.Inv := by
  rw [step]
  split
  case isFalse => exact h
  case isTrue haborted =>
    refine ⟨h.task, fun connection hconnection hopen => ?_⟩
    have hrunning := h.running connection hconnection hopen
    have hne : reader ≠ connection := by
      intro heq
      rw [heq, hrunning] at haborted
      exact absurd haborted nofun
    exact (List.getElem?_set_ne hne).trans hrunning

theorem Inv.elapse (h : s.Inv) (nanos : Nat) : (s.step (.elapse nanos)).1.Inv := by
  refine h.same rfl rfl rfl (fun hfresh => .inl ?_) id
  rw [expired, decide_eq_false_iff_not, Nat.not_le] at hfresh ⊢
  exact Nat.lt_of_le_of_lt (Nat.sub_le_sub_right (Nat.le_add_right _ _) _) hfresh

theorem Inv.step (h : s.Inv) (event : LaneEvent α) (hset : s.Settles event) :
    (s.step event).1.Inv := by
  cases event with
  | send targetKey address packet => exact h.send targetKey address packet
  | lockState send => exact h.lockState send
  | connect send outcome => exact h.connect send outcome
  | register send => exact h.register send
  | written send result => exact h.written send result
  | wake send => exact h.wake send
  | timesOut send => exact h.timesOut send
  | close send => exact h.close send
  | abandon send => exact h.abandon send
  | packet reader targetKey payload => exact h.packet reader targetKey payload
  | readFails reader err => exact h.readFails reader err hset
  | stopped reader => exact h.stopped reader
  | elapse nanos => exact h.elapse nanos

theorem run_inv (kind : PacketConn) (unspecified : α) (events : List (LaneEvent α))
    (h : Meets step Settles (new kind unspecified) events) :
    (run step (new kind unspecified) events).1.Inv :=
  @run_invariant _ _ _ step Settles (fun s _ => s.Inv) (fun _ _ event h => h.step event)
    _ [] (new_inv kind unspecified) events h

theorem reuse_of_lock (s : PacketLane α) (event : LaneEvent α) {send connection : Nat}
    (h : .reuses send connection ∈ (s.step event).2) : event = .lockState send := by
  cases event <;> grind [PacketLane.step, PacketLane.returns]

/-- A send that goes on with a connection has found its reader at work. -/
theorem Inv.reuses (h : s.Inv) (event : LaneEvent α) {send connection : Nat}
    (hreuse : .reuses send connection ∈ (s.step event).2) :
    s.readers[connection]? = some .running := by
  rw [s.reuse_of_lock event hreuse, PacketLane.step] at hreuse
  split at hreuse
  case h_2 => exact absurd hreuse List.not_mem_nil
  case h_1 call hlock hsend =>
    split at hreuse
    case h_2 => exact absurd hreuse List.not_mem_nil
    case h_1 found hfound =>
      cases List.mem_singleton.mp hreuse
      obtain ⟨hconnection,hfresh⟩ := reusable_some hfound
      exact h.running connection hconnection (.inl hfresh)

/-! ## After a read error -/

omit [DecidableEq α] in
/-- Open, and nobody reads. -/
theorem unread (hconnection : s.connection = some connection) (hfresh : s.expired = false)
    (hended : s.readers[connection]? = some .ended) : ¬ s.Recovers := by
  intro hrecovers
  have hrunning := (hrecovers connection hconnection hfresh).2
  exact absurd (hended.symm.trans hrunning) nofun

theorem register_refreshes {send : Nat} {call : LaneSend α}
    (hsend : s.sendAt send .ready = some call) :
    (s.step (.register send)).1.expired = false ∧
      (s.step (.register send)).1.connection = s.connection ∧
      (s.step (.register send)).1.readers = s.readers := by
  have hnow : decide (s.kind.idleTimeout ≤ s.now - s.now) = false := by
    rw [Nat.sub_self, decide_eq_false_iff_not, Nat.not_le]
    exact s.kind.idleTimeout_pos
  simp only [PacketLane.step, hsend]
  split
  · exact ⟨hnow, rfl, rfl⟩
  · exact ⟨hnow, rfl, rfl⟩

/-- The lane is open still, or as soon as the send that has looked at it refreshes it. -/
theorem Inv.unsettled (h : s.Inv) (event : LaneEvent α) (hset : ¬ s.Settles event) :
    ∃ more, ¬ (run PacketLane.step (s.step event).1 more).1.Recovers := by
  cases event with
  | readFails reader err =>
    rw [Settles, Classical.not_imp] at hset
    obtain ⟨hconnection,hopen⟩ := hset
    have hopen' : s.expired = false ∨ s.refreshing = true := by
      simpa [Classical.or_iff_not_imp_left] using hopen
    have hrunning := h.running reader hconnection hopen'
    have hreads : s.reads reader = true := by simp [reads, hrunning]
    have hended : (s.readers.set reader .ended)[reader]? = some .ended :=
      List.getElem?_set_self (List.getElem?_eq_some_iff.mp hrunning).1
    rw [PacketLane.step, if_pos hreads]
    cases hopen' with
    | inl hfresh => exact ⟨[], unread hconnection hfresh hended⟩
    | inr hready =>
      obtain ⟨call,hcall,hstage⟩ := List.any_eq_true.mp hready
      obtain ⟨send,hsend⟩ := List.mem_iff_getElem?.mp hcall
      have hat : (failAll { s with readers := s.readers.set reader .ended } err).sendAt send
          .ready = some call := Option.filter_eq_some_iff.mpr ⟨hsend, hstage⟩
      obtain ⟨hfresh,hsame,hreaders⟩ := register_refreshes hat
      exact ⟨[.register send], unread (hsame.trans hconnection) hfresh (hreaders ▸ hended)⟩
  | _ => exact absurd trivial hset

end PacketLane

/-- In every run whose read errors settle, an open lane has its reader at work, and so has
a connection that a send goes on with; after a read error that does not settle, a lane can
be open without its reader. -/
theorem packet_lane_recovers {α : Type*} [DecidableEq α] (kind : PacketConn) (unspecified : α)
    (events : List (LaneEvent α))
    (h : Meets PacketLane.step PacketLane.Settles (.new kind unspecified) events) :
    let s := (run PacketLane.step (.new kind unspecified) events).1
    s.Recovers ∧
      (∀ event send connection, .reuses send connection ∈ (s.step event).2 →
        s.readers[connection]? = some .running) ∧
      ∀ event, ¬ s.Settles event → ∃ more,
        ¬ (run PacketLane.step (.new kind unspecified) (events ++ event :: more)).1.Recovers := by
  have hinv := PacketLane.run_inv kind unspecified events h
  refine ⟨hinv.recovers, fun event _ _ => hinv.reuses event, fun event hset => ?_⟩
  obtain ⟨more,hmore⟩ := hinv.unsettled event hset
  refine ⟨more, ?_⟩
  rw [run_append]
  exact hmore

/-- The stream ends while the lane is idle, and the next send opens a fresh one. -/
def idleLane : List (LaneEvent Unit) :=
  [.send "1.1.1.1:53" () (.ok ()), .lockState 0, .connect 0 .connected, .register 0,
    .written 0 (.ok ()), .packet 0 "1.1.1.1:53" [7], .wake 0, .elapse (46 * 10 ^ 9),
    .readFails 0 "early eof", .send "1.1.1.1:53" () (.ok ()), .lockState 1,
    .connect 1 .connected, .register 1]

theorem packet_lane_recovers_idle :
    let s := (run PacketLane.step (.new .uot ()) idleLane).1
    s.Recovers ∧
      (∀ event send connection, .reuses send connection ∈ (s.step event).2 →
        s.readers[connection]? = some .running) ∧
      ∀ event, ¬ s.Settles event → ∃ more,
        ¬ (run PacketLane.step (.new .uot ()) (idleLane ++ event :: more)).1.Recovers :=
  packet_lane_recovers .uot () idleLane (by decide +kernel)

/-- The reader ends while its send waits. -/
def readErrorLane : List (LaneEvent Unit) :=
  [.send "1.1.1.1:53" () (.ok ()), .lockState 0, .connect 0 .connected, .register 0,
    .written 0 (.ok ()), .readFails 0 "invalid UoT address type 0", .wake 0]

/-- The lane stays open, and the next send goes on with the connection that nobody reads. -/
theorem ended_reader_reused :
    ¬ (run PacketLane.step (.new .uot ()) readErrorLane).1.Recovers ∧
      ¬ (run PacketLane.step (.new .directUdp ()) readErrorLane).1.Recovers ∧
      .reuses 1 0 ∈ (run PacketLane.step (.new .uot ())
        (readErrorLane ++ [.send "1.1.1.1:53" () (.ok ()), .lockState 1])).2 := by
  refine ⟨?_, ?_, by decide +kernel⟩
  · exact @PacketLane.unread _ _ 0 (by decide +kernel) (by decide +kernel) (by decide +kernel)
  · exact @PacketLane.unread _ _ 0 (by decide +kernel) (by decide +kernel) (by decide +kernel)

end AtlasKernel.Shadowsocks
