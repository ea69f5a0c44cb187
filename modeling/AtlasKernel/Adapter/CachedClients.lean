import AtlasKernel.Lib.Arcs
import AtlasKernel.Lib.Steps

/-! What is left of a cached client when the request that has made it is over. The caches of
the VLESS and AnyTLS adapters hold weak pointers, so it lasts while something else owns it.
There is one configuration, a request begins when no other is in flight, and nothing fails,
is closed from outside or expires. Source: `adapter/vless.rs`, `adapter/anytls.rs`. -/
namespace AtlasKernel.Adapter
open AtlasKernel.Lib

/-- What a request has found in the cache, and what it has used. -/
abbrev Lookup := Option Nat × Nat

/-- Every request after the first finds what the first has used. -/
def FindFirst (lookups : List Lookup) : Prop := ∀ l ∈ lookups.tail, l.1 = lookups.head?.map Prod.snd

theorem findFirst_iff {lookups : List Lookup} (h : ∀ l ∈ lookups, l.1 = none) :
    FindFirst lookups ↔ lookups.length ≤ 1 := by
  match lookups with
  | [] => exact ⟨fun _ => Nat.zero_le _, fun _ l hl => (List.not_mem_nil hl).elim⟩
  | [l] => exact ⟨fun _ => Nat.le_refl _, fun _ l hl => (List.not_mem_nil hl).elim⟩
  | first :: second :: rest =>
    constructor
    · intro hfind
      have hnone := h second (List.mem_cons_of_mem _ List.mem_cons_self)
      cases hnone.symm.trans (hfind second List.mem_cons_self)
    · intro hle
      rw [List.length_cons, List.length_cons] at hle
      omega

/-! ## VLESS -/

namespace VlessUdp

/-- The worker has the write half of its stream. -/
structure VlessMuxWorker where
  stream : Nat
  closed : Bool
deriving DecidableEq, Repr

/-- The cache entry of the configuration is a weak pointer; `streams` is what the two halves
of a split upstream connection share, and each reader task has a read half. -/
structure Runtime where
  entry : Option Nat
  workers : Arcs VlessMuxWorker
  streams : Arcs Unit
  readers : List Nat
  current : Option Nat
deriving DecidableEq, Repr

inductive Event where
  | sendUdp
  | finish
deriving DecidableEq, Repr

namespace Runtime

def new : Runtime := ⟨none, .empty, .empty, [], none⟩

def isClosed (s : Runtime) (worker : Nat) : Bool := (s.workers.value worker).elim true VlessMuxWorker.closed

/-- The reader task is detached from the worker: it keeps its half. -/
def dropWorker (s : Runtime) (worker : Nat) : Runtime :=
  match s.workers.drop worker with
  | (workers, some w) => { s with workers := workers, streams := (s.streams.drop w.stream).1 }
  | (workers, none) => { s with workers := workers }

/-- `retain` on the cache. -/
def retain (s : Runtime) : Runtime := { s with entry := s.workers.upgrade s.entry }

/-- `open_vless_mux_stream`, `VlessMuxWorker::new` and the insertion. -/
def openWorker (s : Runtime) : Runtime × Lookup :=
  let stream := s.streams.new ()
  let worker := s.workers.new ⟨stream.2, false⟩
  ({ s with
    entry := some worker.2
    workers := worker.1
    streams := stream.1.clone stream.2
    readers := s.readers ++ [stream.2] }, (none, worker.2))

def muxWorkerFor (s : Runtime) : Runtime × Lookup :=
  match s.workers.upgrade s.entry with
  | some worker =>
    let s := { s with workers := s.workers.clone worker }
    if s.isClosed worker then openWorker (retain (dropWorker { s with entry := none } worker))
    else (s, (some worker, worker))
  | none => openWorker (retain s)

def step (s : Runtime) : Event → Runtime × List Lookup
  | .sendUdp =>
    if s.current = none then
      let r := s.muxWorkerFor
      ({ r.1 with current := some r.2.2 }, [r.2])
    else (s, [])
  | .finish =>
    match s.current with
    | some worker => ({ s.dropWorker worker with current := none }, [])
    | none => (s, [])

/-- The request in flight or the cache leads to the connection. -/
def Reaches (s : Runtime) (stream : Nat) : Prop :=
  ∃ worker, (s.current = some worker ∨ s.workers.upgrade s.entry = some worker) ∧
    (s.workers.value worker).map VlessMuxWorker.stream = some stream

/-- The cached worker survives: it is found again, there is one connection, and no reader is
left behind. -/
structure Survives (s : Runtime) (lookups : List Lookup) : Prop where
  found : FindFirst lookups
  opened : lookups ≠ [] → s.streams.size = 1
  readers : ∀ stream ∈ s.readers, s.Reaches stream

structure Inv (s : Runtime) (lookups : List Lookup) : Prop where
  owners : s.workers.Counted s.current.toList
  missed : ∀ l ∈ lookups, l.1 = none
  opened : s.streams.size = lookups.length
  readers : ∀ stream, stream ∈ s.readers ↔ stream < s.streams.size
  current : ∀ worker ∈ s.current, ∃ w, s.workers.value worker = some w ∧ w.stream + 1 = s.streams.size

theorem Inv.muxWorkerFor {s : Runtime} {lookups : List Lookup} (h : Inv s lookups) (hidle : s.current = none) :
    s.muxWorkerFor = openWorker { s with entry := none } := by
  have howners := h.owners
  rw [hidle] at howners
  rw [Runtime.muxWorkerFor, howners.upgrade_nil]
  dsimp only
  rw [retain, howners.upgrade_nil]

theorem Inv.sendUdp {s : Runtime} {lookups : List Lookup} (h : Inv s lookups) (hidle : s.current = none) :
    Inv { s.muxWorkerFor.1 with current := some s.muxWorkerFor.2.2 } (lookups ++ [s.muxWorkerFor.2]) := by
  have howners := h.owners
  rw [hidle] at howners
  rw [h.muxWorkerFor hidle, openWorker]
  refine ⟨howners.new _, ?_, ?_, ?_, ?_⟩
  · rintro l hl
    cases List.mem_append.mp hl with
    | inl hold => exact h.missed l hold
    | inr hnew =>
      rw [List.mem_singleton.mp hnew]
  · simp only [Arcs.size_clone, Arcs.size_new, List.length_append, List.length_singleton, h.opened]
  · intro stream
    simp only [Arcs.size_clone, Arcs.size_new, List.mem_append, List.mem_singleton, h.readers]
    exact Nat.lt_succ_iff_lt_or_eq.symm
  · intro worker hworker
    cases hworker
    refine ⟨⟨s.streams.size, false⟩, ?_, ?_⟩
    · exact (Arcs.value_new _ _).trans (if_pos rfl)
    · rw [Arcs.size_clone, Arcs.size_new]

theorem dropWorker_spec (s : Runtime) (worker : Nat) :
    (s.dropWorker worker).workers = (s.workers.drop worker).1 ∧
      (s.dropWorker worker).streams.size = s.streams.size ∧
      (s.dropWorker worker).readers = s.readers := by
  rw [dropWorker]
  split
  case h_1 workers w hdrop => exact ⟨(congrArg Prod.fst hdrop).symm, Arcs.size_drop, rfl⟩
  case h_2 workers hdrop => exact ⟨(congrArg Prod.fst hdrop).symm, rfl, rfl⟩

theorem Inv.finish {s : Runtime} {lookups : List Lookup} (h : Inv s lookups) {worker : Nat}
    (hbusy : s.current = some worker) : Inv { s.dropWorker worker with current := none } lookups := by
  obtain ⟨hworkers,hsize,hreaders⟩ := dropWorker_spec s worker
  have howners := h.owners
  rw [hbusy] at howners
  refine ⟨?_, h.missed, hsize.trans h.opened, fun stream => ?_, fun worker hworker => (by cases hworker)⟩
  · dsimp only
    rw [hworkers]
    exact howners.drop
  · dsimp only
    rw [hreaders, hsize]
    exact h.readers stream

theorem Inv.step {s : Runtime} {lookups : List Lookup} (h : Inv s lookups) (event : Event) :
    Inv (s.step event).1 (lookups ++ (s.step event).2) := by
  have hsame : Inv s (lookups ++ []) := by
    rw [List.append_nil]
    exact h
  cases event with
  | sendUdp =>
    rw [Runtime.step]
    split
    case isTrue hidle => exact h.sendUdp hidle
    case isFalse => exact hsame
  | finish =>
    rw [Runtime.step]
    split
    case h_1 worker hbusy =>
      rw [List.append_nil]
      exact h.finish hbusy
    case h_2 => exact hsame

theorem new_inv : Inv new [] :=
  ⟨.empty, fun _ hl => (List.not_mem_nil hl).elim, rfl,
    fun _ => ⟨fun h => (List.not_mem_nil h).elim, fun h => absurd h (Nat.not_lt_zero _)⟩,
    fun _ h => by cases h⟩

theorem run_inv (events : List Event) :
    Inv (run step new events).1 (run step new events).2 :=
  run_invariant Inv (fun _ _ event h _ => h.step event) new_inv events
    (meets_of_forall (fun _ _ _ => trivial) _)

/-- Only the connection of the request in flight is reached. -/
theorem Inv.reaches_iff {s : Runtime} {lookups : List Lookup} (h : Inv s lookups) (stream : Nat) :
    s.Reaches stream ↔ s.current ≠ none ∧ stream + 1 = s.streams.size := by
  constructor
  · rintro ⟨worker,hleads,hvalue⟩
    have hworker : s.current = some worker := by
      obtain hcurrent | hcached := hleads
      · exact hcurrent
      · cases hentry : s.entry with
        | none =>
          rw [hentry] at hcached
          cases hcached
        | some cached =>
          rw [hentry, h.owners.upgrade] at hcached
          split at hcached
          case isTrue hmem =>
            cases hcached
            exact Option.mem_toList.mp hmem
          case isFalse => cases hcached
    obtain ⟨w,hw,hlast⟩ := h.current worker hworker
    rw [hw] at hvalue
    cases hvalue
    exact ⟨by rw [hworker]; exact Option.some_ne_none _, hlast⟩
  · rintro ⟨hbusy,hlast⟩
    obtain ⟨worker,hworker⟩ := Option.ne_none_iff_exists'.mp hbusy
    obtain ⟨w,hw,hsize⟩ := h.current worker hworker
    refine ⟨worker, .inl hworker, ?_⟩
    rw [hw, Option.map_some]
    exact congrArg some (by omega)

/-- The worker survives as long as the first request has not ended. -/
theorem Inv.survives_iff {s : Runtime} {lookups : List Lookup} (h : Inv s lookups) :
    s.Survives lookups ↔ lookups.length ≤ 1 ∧ (lookups ≠ [] → s.current ≠ none) := by
  constructor
  · intro hsurvives
    refine ⟨(findFirst_iff h.missed).mp hsurvives.found, fun hne => ?_⟩
    have hpos : 0 < s.streams.size := by
      rw [hsurvives.opened hne]
      exact Nat.one_pos
    exact ((h.reaches_iff 0).mp (hsurvives.readers 0 ((h.readers 0).mpr hpos))).1
  · rintro ⟨hle,hbusy⟩
    refine ⟨(findFirst_iff h.missed).mpr hle, fun hne => ?_, fun stream hstream => ?_⟩
    · have hpos := List.length_pos_iff.mpr hne
      rw [h.opened]
      omega
    · have hlt := (h.readers stream).mp hstream
      rw [h.opened] at hlt
      have hne : lookups ≠ [] := List.length_pos_iff.mp (by omega)
      refine (h.reaches_iff stream).mpr ⟨hbusy hne, ?_⟩
      rw [h.opened]
      omega

end Runtime
end VlessUdp

/-! ## AnyTLS -/

namespace AnyTls

structure AnyTlsSession where
  closed : Bool
deriving DecidableEq, Repr

/-- The client is a weak pointer. -/
structure AnyTlsStream where
  client : Nat
  session : Nat
deriving DecidableEq, Repr

/-- It has the write half of its stream. -/
structure AnyTlsUdpConn where
  stream : Nat
  closed : Bool
deriving DecidableEq, Repr

structure AnyTlsClient where
  idle : List Nat
  udp : List (String × Nat)
deriving DecidableEq, Repr

/-- The two loops have the halves of the upstream connection, and a weak pointer to its session;
the reader of a packet connection has the read half of a stream. The last two are spawned by a
stream that is dropped. -/
inductive Spawned where
  | writeLoop (session : Nat)
  | readLoop (session : Nat)
  | uotReader (stream : Nat)
  | unregister (session : Nat)
  | release (client session : Nat)
deriving DecidableEq, Repr

/-- A stream that is in use, or a packet that waits for its response. -/
inductive InFlight where
  | stream (stream : Nat)
  | packet (client conn : Nat)
deriving DecidableEq, Repr

structure Runtime where
  entry : Option Nat
  clients : Arcs AnyTlsClient
  sessions : Arcs AnyTlsSession
  streams : Arcs AnyTlsStream
  conns : Arcs AnyTlsUdpConn
  tasks : List Spawned
  current : Option InFlight
deriving DecidableEq, Repr

/-- The key of a packet is its target. -/
inductive Event where
  | connect
  | sendUdp (key : String)
  | finish
  | task (i : Nat)
deriving DecidableEq, Repr

namespace Runtime

def new : Runtime := ⟨none, .empty, .empty, .empty, .empty, [], none⟩

def isClosed (s : Runtime) (session : Nat) : Bool := (s.sessions.value session).elim true AnyTlsSession.closed

def connClosed (s : Runtime) (conn : Nat) : Bool := (s.conns.value conn).elim true AnyTlsUdpConn.closed

def idle (s : Runtime) (client : Nat) : List Nat := (s.clients.value client).elim [] AnyTlsClient.idle

def udp (s : Runtime) (client : Nat) : List (String × Nat) := (s.clients.value client).elim [] AnyTlsClient.udp

def setIdle (s : Runtime) (client : Nat) (idle : List Nat) : Runtime :=
  { s with clients := s.clients.update client fun c => { c with idle := idle } }

def setUdp (s : Runtime) (client : Nat) (udp : List (String × Nat)) : Runtime :=
  { s with clients := s.clients.update client fun c => { c with udp := udp } }

/-! ### Drops -/

def dropSession (s : Runtime) (session : Nat) : Runtime := { s with sessions := (s.sessions.drop session).1 }

/-- `AnyTlsStream::drop`, and the fields behind it. -/
def streamDropped (s : Runtime) (stream : AnyTlsStream) : Runtime :=
  let s : Runtime := { s with
    sessions := s.sessions.clone stream.session
    tasks := s.tasks ++ [.unregister stream.session] }
  let s : Runtime := match s.clients.upgrade (some stream.client) with
    | some client => { s with
        clients := s.clients.clone client
        sessions := s.sessions.clone stream.session
        tasks := s.tasks ++ [.release client stream.session] }
    | none => s
  s.dropSession stream.session

def dropStream (s : Runtime) (stream : Nat) : Runtime :=
  match s.streams.drop stream with
  | (streams, some value) => streamDropped { s with streams := streams } value
  | (streams, none) => { s with streams := streams }

/-- The reader task is detached from the connection: it keeps its half. -/
def dropConn (s : Runtime) (conn : Nat) : Runtime :=
  match s.conns.drop conn with
  | (conns, some c) => dropStream { s with conns := conns } c.stream
  | (conns, none) => { s with conns := conns }

def dropClient (s : Runtime) (client : Nat) : Runtime :=
  match s.clients.drop client with
  | (clients, some c) =>
    c.udp.foldl (fun s e => s.dropConn e.2) (c.idle.foldl dropSession { s with clients := clients })
  | (clients, none) => { s with clients := clients }

/-! ### Requests -/

def clientFor (s : Runtime) : Runtime × Lookup :=
  match s.clients.upgrade s.entry with
  | some client => ({ s with clients := s.clients.clone client }, (some client, client))
  | none =>
    -- `retain` takes a dead entry out of the cache, and the new one takes its place
    let client := s.clients.new ⟨[], []⟩
    ({ s with entry := some client.2, clients := client.1 }, (none, client.2))

def cleanupIdle (s : Runtime) (client : Nat) : Runtime :=
  ((s.idle client).filter s.isClosed).foldl dropSession
    (s.setIdle client ((s.idle client).filter fun session => !s.isClosed session))

/-- The loop of `take_idle`, over the list from its back. -/
def takeIdleLoop (s : Runtime) : List Nat → Runtime × List Nat × Option Nat
  | [] => (s, [], none)
  | session :: rest =>
    if s.isClosed session then takeIdleLoop (s.dropSession session) rest else (s, rest, some session)

def takeIdle (s : Runtime) (client : Nat) : Runtime × Option Nat :=
  let r := s.takeIdleLoop (s.idle client).reverse
  (r.1.setIdle client r.2.1.reverse, r.2.2)

def createSession (s : Runtime) : Runtime × Nat :=
  let session := s.sessions.new ⟨false⟩
  ({ s with sessions := session.1, tasks := s.tasks ++ [.writeLoop session.2, .readLoop session.2] }, session.2)

/-- `AnyTlsClient::open_stream`: it is given the client, and drops it. -/
def openStream (s : Runtime) (client : Nat) : Runtime × Nat :=
  let taken := (s.cleanupIdle client).takeIdle client
  let opened := match taken.2 with
    | some session => (taken.1, session)
    | none => taken.1.createSession
  let stream := opened.1.streams.new ⟨client, opened.2⟩
  (dropClient { opened.1 with streams := stream.1 } client, stream.2)

def cleanupUdp (s : Runtime) (client : Nat) : Runtime :=
  ((s.udp client).filter fun e => s.connClosed e.2).foldl (fun s e => s.dropConn e.2)
    (s.setUdp client ((s.udp client).filter fun e => !s.connClosed e.2))

/-- `AnyTlsUdpConn::open`: the stream is split, and the reader gets one half. -/
def openConn (s : Runtime) (client : Nat) : Runtime × Nat :=
  let stream := openStream { s with clients := s.clients.clone client } client
  let conn := stream.1.conns.new ⟨stream.2, false⟩
  ({ stream.1 with
    streams := stream.1.streams.clone stream.2
    conns := conn.1
    tasks := stream.1.tasks ++ [.uotReader stream.2] }, conn.2)

/-- The map gets the new connection, unless it has one of its key that is open. -/
def insertConn (s : Runtime) (client : Nat) (key : String) (conn : Nat) : Runtime × Nat :=
  match (s.udp client).lookup key with
  | none => (setUdp { s with conns := s.conns.clone conn } client (s.udp client ++ [(key, conn)]), conn)
  | some existing =>
    if s.connClosed existing then
      (dropConn (setUdp { s with conns := s.conns.clone conn } client
        ((s.udp client).map fun e => if e.1 = key then (key, conn) else e)) existing, conn)
    else (dropConn { s with conns := s.conns.clone existing } conn, existing)

/-- It is given the client, and drops it. -/
def udpConn (s : Runtime) (client : Nat) (key : String) : Runtime × Nat :=
  match ((s.udp client).lookup key).filter fun conn => !s.connClosed conn with
  | some conn => (dropClient { s with conns := s.conns.clone conn } client, conn)
  | none =>
    let opened := s.openConn client
    let inserted := opened.1.insertConn client key opened.2
    (inserted.1.dropClient client, inserted.2)

def connect (s : Runtime) : Runtime × Lookup :=
  let found := s.clientFor
  let stream := found.1.openStream found.2.2
  ({ stream.1 with current := some (.stream stream.2) }, found.2)

/-- `send_udp` until the packet is on its way. -/
def sendUdp (s : Runtime) (key : String) : Runtime × Lookup :=
  let found := s.clientFor
  let client := found.2.2
  let cleaned := found.1.cleanupUdp client
  let conn := udpConn { cleaned with clients := cleaned.clients.clone client } client key
  ({ conn.1 with current := some (.packet client conn.2) }, found.2)

/-- The stream is dropped, or the response has come and the call returns. -/
def finish (s : Runtime) : Runtime :=
  match s.current with
  | some (.stream stream) => { s.dropStream stream with current := none }
  | some (.packet client conn) => { (s.dropConn conn).dropClient client with current := none }
  | none => s

/-- The write loop ends when its session is gone; the readers wait for the other side. -/
def runTask (s : Runtime) (i : Nat) : Runtime :=
  match s.tasks[i]? with
  | some (.writeLoop session) =>
    if s.sessions.strong session = 0 then { s with tasks := s.tasks.eraseIdx i } else s
  | some (.unregister session) => dropSession { s with tasks := s.tasks.eraseIdx i } session
  | some (.release client session) =>
    let s := { s with tasks := s.tasks.eraseIdx i }
    if s.isClosed session then (s.dropSession session).dropClient client
    else (s.setIdle client (s.idle client ++ [session])).dropClient client
  | _ => s

def step (s : Runtime) : Event → Runtime × List Lookup
  | .connect => if s.current = none then (s.connect.1, [s.connect.2]) else (s, [])
  | .sendUdp key => if s.current = none then ((s.sendUdp key).1, [(s.sendUdp key).2]) else (s, [])
  | .finish => (s.finish, [])
  | .task i => (s.runTask i, [])

/-! ### What drops keep -/

/-- What is kept while no client lives. -/
structure Keeps (s s' : Runtime) : Prop where
  clients : s.clients.Counted [] → s'.clients.Counted []
  sessions : s'.sessions.size = s.sessions.size
  streams : ∀ a, s'.streams.value a = s.streams.value a
  tasks : ∀ task ∈ s.tasks, task ∈ s'.tasks
  spawned : ∀ task ∈ s'.tasks, task ∈ s.tasks ∨ ∃ session, task = .unregister session

theorem Keeps.refl (s : Runtime) : Keeps s s := ⟨id, rfl, fun _ => rfl, fun _ h => h, fun _ h => .inl h⟩

theorem Keeps.trans {s s' s'' : Runtime} (h : Keeps s s') (h' : Keeps s' s'') : Keeps s s'' where
  clients hno := h'.clients (h.clients hno)
  sessions := h'.sessions.trans h.sessions
  streams a := (h'.streams a).trans (h.streams a)
  tasks task hmem := h'.tasks task (h.tasks task hmem)
  spawned task hmem := by
    obtain hold | hnew := h'.spawned task hmem
    · exact h.spawned task hold
    · exact .inr hnew

theorem setCurrent_keeps (s : Runtime) (current : Option InFlight) : Keeps s { s with current := current } :=
  ⟨id, rfl, fun _ => rfl, fun _ h => h, fun _ h => .inl h⟩

theorem dropSession_keeps (s : Runtime) (session : Nat) : Keeps s (s.dropSession session) :=
  ⟨id, Arcs.size_drop, fun _ => rfl, fun _ h => h, fun _ h => .inl h⟩

/-- No client is upgraded, so no session is released. -/
theorem streamDropped_keeps {s : Runtime} (h : s.clients.Counted []) (stream : AnyTlsStream) :
    Keeps s (s.streamDropped stream) := by
  rw [streamDropped]
  dsimp only
  rw [h.upgrade_nil]
  have hspawn : Keeps s { s with
      sessions := s.sessions.clone stream.session
      tasks := s.tasks ++ [.unregister stream.session] } := by
    refine ⟨id, Arcs.size_clone, fun _ => rfl, fun _ hmem => List.mem_append_left _ hmem, ?_⟩
    intro task hmem
    cases List.mem_append.mp hmem with
    | inl hold => exact .inl hold
    | inr hnew => exact .inr ⟨_, List.mem_singleton.mp hnew⟩
  exact hspawn.trans (dropSession_keeps _ _)

theorem dropStream_keeps {s : Runtime} (h : s.clients.Counted []) (stream : Nat) :
    Keeps s (s.dropStream stream) := by
  have hstreams : Keeps s { s with streams := (s.streams.drop stream).1 } :=
    ⟨id, rfl, fun _ => Arcs.value_drop _, fun _ h => h, fun _ h => .inl h⟩
  rw [dropStream]
  split
  case h_1 streams value hdrop =>
    rw [hdrop] at hstreams
    exact hstreams.trans (streamDropped_keeps (hstreams.clients h) value)
  case h_2 streams hdrop =>
    rw [hdrop] at hstreams
    exact hstreams

theorem dropConn_keeps {s : Runtime} (h : s.clients.Counted []) (conn : Nat) : Keeps s (s.dropConn conn) := by
  have hconns : ∀ conns, Keeps s { s with conns := conns } :=
    fun _ => ⟨id, rfl, fun _ => rfl, fun _ h => h, fun _ h => .inl h⟩
  rw [dropConn]
  split
  case h_1 conns c _ => exact (hconns conns).trans (dropStream_keeps ((hconns conns).clients h) c.stream)
  case h_2 conns _ => exact hconns conns

theorem foldl_keeps {β : Type} {f : Runtime → β → Runtime}
    (hf : ∀ s b, s.clients.Counted [] → Keeps s (f s b)) {s : Runtime} (h : s.clients.Counted []) (bs : List β) :
    Keeps s (bs.foldl f s) := by
  induction bs generalizing s with
  | nil => exact .refl s
  | cons b bs ih => exact (hf s b h).trans (ih ((hf s b h).clients h))

/-- The last owner of a client drops what is in it, and does not bring it back. -/
theorem dropClient_last {s : Runtime} {client : Nat} (h : s.clients.Counted [client]) :
    Keeps s (s.dropClient client) ∧ (s.dropClient client).clients.Counted [] := by
  have hnone := h.drop
  have hclients : Keeps s { s with clients := (s.clients.drop client).1 } :=
    ⟨fun _ => hnone, rfl, fun _ => rfl, fun _ h => h, fun _ h => .inl h⟩
  rw [dropClient]
  split
  case h_1 clients c hdrop =>
    rw [hdrop] at hnone hclients
    have hidle := foldl_keeps (fun s b _ => dropSession_keeps s b) (s := { s with clients := clients }) hnone c.idle
    have hudp := foldl_keeps (fun s (e : String × Nat) h => dropConn_keeps h e.2) (hidle.clients hnone) c.udp
    exact ⟨(hclients.trans hidle).trans hudp, hudp.clients (hidle.clients hnone)⟩
  case h_2 clients hdrop =>
    rw [hdrop] at hnone hclients
    exact ⟨hclients, hnone⟩

theorem dropClient_shared {s : Runtime} {client : Nat} {owners : List Nat}
    (h : s.clients.Counted (client :: owners)) (hmem : client ∈ owners) :
    s.dropClient client = { s with clients := (s.clients.drop client).1 } := by
  have hshared := h.shared hmem
  rw [dropClient]
  split
  case h_1 clients c hdrop =>
    rw [hdrop] at hshared
    cases hshared
  case h_2 clients hdrop => rw [hdrop]

/-! ### What a request leaves behind -/

/-- The stream belongs to the session opened last. -/
def Newest (s : Runtime) (stream : Nat) : Prop :=
  ∃ v, s.streams.value stream = some v ∧ v.session + 1 = s.sessions.size

/-- A packet's connection is in the client's map, too. -/
def Holds (s : Runtime) : InFlight → Prop
  | .stream stream => s.Newest stream
  | .packet _ conn => 2 ≤ s.conns.strong conn ∧ ∃ c, s.conns.value conn = some c ∧ s.Newest c.stream

/-- Each lookup has missed and has led to a session, whose reader is there. -/
structure Ledger (s : Runtime) (lookups : List Lookup) : Prop where
  missed : ∀ l ∈ lookups, l.1 = none
  opened : s.sessions.size = lookups.length
  readers : ∀ session, .readLoop session ∈ s.tasks ↔ session < s.sessions.size
  uotReaders : ∀ stream, .uotReader stream ∈ s.tasks →
    ∃ v, s.streams.value stream = some v ∧ v.session < s.sessions.size
  noRelease : ∀ client session, .release client session ∉ s.tasks

theorem Ledger.keeps {s s' : Runtime} {lookups : List Lookup} (h : Ledger s lookups) (hk : Keeps s s') :
    Ledger s' lookups where
  missed := h.missed
  opened := hk.sessions.trans h.opened
  readers session := by
    rw [hk.sessions, ← h.readers]
    refine ⟨fun hmem => ?_, hk.tasks _⟩
    obtain hold | ⟨_,hnew⟩ := hk.spawned _ hmem
    · exact hold
    · cases hnew
  uotReaders stream hmem := by
    rw [hk.sessions, hk.streams]
    obtain hold | ⟨_,hnew⟩ := hk.spawned _ hmem
    · exact h.uotReaders stream hold
    · cases hnew
  noRelease client session hmem := by
    obtain hold | ⟨_,hnew⟩ := hk.spawned _ hmem
    · exact h.noRelease client session hold
    · cases hnew

/-- A session is opened, and its loops are spawned. -/
theorem Ledger.createSession {s s' : Runtime} {lookups : List Lookup} (h : Ledger s lookups)
    (hsessions : s'.sessions = (s.sessions.new ⟨false⟩).1)
    (htasks : s'.tasks = s.tasks ++ [.writeLoop s.sessions.size, .readLoop s.sessions.size])
    (hstreams : ∀ a v, s.streams.value a = some v → s'.streams.value a = some v) (client : Nat) :
    Ledger s' (lookups ++ [(none, client)]) where
  missed l hl := by
    cases List.mem_append.mp hl with
    | inl hold => exact h.missed l hold
    | inr hnew => rw [List.mem_singleton.mp hnew]
  opened := by
    rw [hsessions, Arcs.size_new, List.length_append, List.length_singleton, h.opened]
  readers session := by
    rw [hsessions, htasks, Arcs.size_new, List.mem_append, h.readers]
    simp only [List.mem_cons, List.not_mem_nil, or_false, reduceCtorEq, false_or, Spawned.readLoop.injEq]
    exact Nat.lt_succ_iff_lt_or_eq.symm
  uotReaders stream hmem := by
    rw [htasks, List.mem_append] at hmem
    simp only [List.mem_cons, List.not_mem_nil, or_false, reduceCtorEq] at hmem
    obtain ⟨v,hv,hlt⟩ := h.uotReaders stream hmem
    refine ⟨v, hstreams stream v hv, ?_⟩
    rw [hsessions, Arcs.size_new]
    exact Nat.lt_succ_of_lt hlt
  noRelease client session hmem := by
    rw [htasks, List.mem_append] at hmem
    simp only [List.mem_cons, List.not_mem_nil, or_false, reduceCtorEq] at hmem
    exact h.noRelease client session hmem

/-- With a new session and a stream of it. -/
def opened (s : Runtime) (client : Nat) : Runtime :=
  { s with
    sessions := (s.sessions.new ⟨false⟩).1
    tasks := s.tasks ++ [.writeLoop s.sessions.size, .readLoop s.sessions.size]
    streams := (s.streams.new ⟨client, s.sessions.size⟩).1 }

theorem opened_newest (s : Runtime) (client : Nat) : (s.opened client).Newest s.streams.size :=
  ⟨⟨client, s.sessions.size⟩, (Arcs.value_new _ _).trans (if_pos rfl), (Arcs.size_new _).symm⟩

theorem Ledger.opens {s : Runtime} {lookups : List Lookup} (h : Ledger s lookups) (client : Nat) :
    Ledger (s.opened client) (lookups ++ [(none, client)]) :=
  h.createSession rfl rfl (fun _ _ hv => Arcs.value_new_old hv) client

/-- A client that has no idle session opens one. -/
theorem openStream_fresh {s : Runtime} {client : Nat} {c : AnyTlsClient} (hvalue : s.clients.value client = some c)
    (hidle : c.idle = []) :
    s.openStream client = ((s.opened client).dropClient client, s.streams.size) := by
  have hnil : s.idle client = [] := by
    rw [Runtime.idle, hvalue]
    exact hidle
  have hset : s.setIdle client [] = s := by
    rw [setIdle, Arcs.update_self hvalue (by rw [← hidle])]
  have hcleanup : s.cleanupIdle client = s := by
    rw [cleanupIdle, hnil]
    exact hset
  have htake : s.takeIdle client = (s, none) := by
    rw [takeIdle, hnil]
    exact congrArg (·, none) hset
  rw [openStream, hcleanup, htake]
  rfl

theorem Newest.keeps {s s' : Runtime} {stream : Nat} (h : s.Newest stream) (hk : Keeps s s') :
    s'.Newest stream := by
  obtain ⟨v,hv,hlast⟩ := h
  exact ⟨v, (hk.streams stream).trans hv, hlast.trans hk.sessions.symm⟩

/-- The cache is not read, and the new client gets there. -/
def found (s : Runtime) : Runtime :=
  { s with entry := some s.clients.size, clients := (s.clients.new ⟨[], []⟩).1 }

theorem clientFor_fresh {s : Runtime} (h : s.clients.Counted []) :
    s.clientFor = (s.found, (none, s.clients.size)) := by
  rw [clientFor, h.upgrade_nil]
  rfl

theorem found_value (s : Runtime) : s.found.clients.value s.clients.size = some ⟨[], []⟩ :=
  (Arcs.value_new _ _).trans (if_pos rfl)

theorem Ledger.found {s : Runtime} {lookups : List Lookup} (h : Ledger s lookups) : Ledger s.found lookups :=
  ⟨h.missed, h.opened, h.readers, h.uotReaders, h.noRelease⟩

theorem Ledger.connect {s : Runtime} {lookups : List Lookup} (h : Ledger s lookups)
    (hno : s.clients.Counted []) :
    s.connect.1.clients.Counted [] ∧ Ledger s.connect.1 (lookups ++ [s.connect.2]) ∧
      ∃ stream, s.connect.1.current = some (.stream stream) ∧ s.connect.1.Newest stream := by
  have howner : (s.found.opened s.clients.size).clients.Counted [s.clients.size] := hno.new ⟨[], []⟩
  obtain ⟨hkeeps,hnone⟩ := dropClient_last howner
  have hwhole := hkeeps.trans (setCurrent_keeps _ (some (.stream s.found.streams.size)))
  rw [Runtime.connect, clientFor_fresh hno]
  dsimp only
  rw [openStream_fresh s.found_value rfl]
  exact ⟨hnone, (h.found.opens s.clients.size).keeps hwhole, s.found.streams.size, rfl,
    (opened_newest s.found s.clients.size).keeps hwhole⟩

/-- With a packet connection on a stream of its own; its reader has the other half. -/
def packetOpened (s : Runtime) (client : Nat) : Runtime :=
  { s.opened client with
    streams := (s.opened client).streams.clone s.streams.size
    conns := (s.conns.new ⟨s.streams.size, false⟩).1
    tasks := (s.opened client).tasks ++ [.uotReader s.streams.size] }

theorem openConn_fresh {s : Runtime} {client : Nat} {owners : List Nat} {c : AnyTlsClient}
    (howners : s.clients.Counted (client :: owners)) (hvalue : s.clients.value client = some c)
    (hidle : c.idle = []) :
    s.openConn client = ({ s.packetOpened client with clients := ((s.clients.clone client).drop client).1 },
      s.conns.size) := by
  have hmore : (s.clients.clone client).Counted (client :: client :: owners) :=
    howners.clone List.mem_cons_self
  have hclone : (s.clients.clone client).value client = some c := by
    rw [Arcs.value_clone]
    exact hvalue
  have hdrop : (opened { s with clients := s.clients.clone client } client).dropClient client = _ :=
    dropClient_shared hmore List.mem_cons_self
  rw [openConn]
  dsimp only
  rw [openStream_fresh hclone hidle]
  dsimp only
  rw [hdrop]
  rfl

theorem udpConn_fresh {s : Runtime} {client : Nat} {owners : List Nat}
    (howners : s.clients.Counted (client :: client :: owners)) (hvalue : s.clients.value client = some ⟨[], []⟩)
    (key : String) :
    ∃ clients, clients.Counted (client :: owners) ∧ s.udpConn client key =
      ({ s.packetOpened client with
          clients := clients
          conns := (s.packetOpened client).conns.clone s.conns.size }, s.conns.size) := by
  have hopened := (howners.clone List.mem_cons_self).drop
  have hnil : s.udp client = [] := by rw [Runtime.udp, hvalue]; rfl
  have hnil' : Runtime.udp { s.packetOpened client with clients := ((s.clients.clone client).drop client).1 }
      client = [] := by
    rw [Runtime.udp]
    dsimp only
    rw [Arcs.value_drop, Arcs.value_clone, hvalue]
    rfl
  rw [udpConn, hnil]
  dsimp only [List.lookup, Option.filter]
  rw [openConn_fresh howners hvalue rfl]
  dsimp only
  rw [insertConn, hnil']
  dsimp only [List.lookup]
  rw [dropClient_shared (hopened.update _) List.mem_cons_self]
  exact ⟨_, (hopened.update _).drop, rfl⟩

theorem Ledger.packet {s s' : Runtime} {lookups : List Lookup} (h : Ledger s lookups) (client : Nat)
    (hsessions : s'.sessions = (s.packetOpened client).sessions)
    (hstreams : s'.streams = (s.packetOpened client).streams)
    (htasks : s'.tasks = (s.packetOpened client).tasks) : Ledger s' (lookups ++ [(none, client)]) := by
  have hopens := h.opens client
  have hvalue : ∀ a, s'.streams.value a = (s.opened client).streams.value a := fun a => by
    rw [hstreams]
    exact Arcs.value_clone a
  refine ⟨hopens.missed, ?_, fun session => ?_, fun stream hmem => ?_, fun client session hmem => ?_⟩
  · rw [hsessions]
    exact hopens.opened
  · rw [hsessions, htasks, packetOpened, List.mem_append, hopens.readers]
    simp only [List.mem_singleton, reduceCtorEq, or_false]
  · rw [hsessions, hvalue]
    rw [htasks, packetOpened, List.mem_append] at hmem
    cases hmem with
    | inl hold => exact hopens.uotReaders stream hold
    | inr hnew =>
      cases List.mem_singleton.mp hnew
      obtain ⟨v,hv,hlast⟩ := opened_newest s client
      exact ⟨v, hv, Nat.lt_of_succ_le (Nat.le_of_eq hlast)⟩
  · rw [htasks, packetOpened, List.mem_append] at hmem
    simp only [List.mem_singleton, reduceCtorEq, or_false] at hmem
    exact hopens.noRelease client session hmem

theorem Ledger.sendUdp {s : Runtime} {lookups : List Lookup} (h : Ledger s lookups)
    (hno : s.clients.Counted []) (key : String) :
    ∃ client conn, (s.sendUdp key).1.current = some (.packet client conn) ∧
      (s.sendUdp key).1.clients.Counted [client] ∧ Ledger (s.sendUdp key).1 (lookups ++ [(s.sendUdp key).2]) ∧
      (s.sendUdp key).1.Holds (.packet client conn) := by
  have hcleanup : s.found.cleanupUdp s.clients.size = s.found := by
    have hnil : s.found.udp s.clients.size = [] := by
      rw [Runtime.udp, found_value]
      rfl
    have hset : s.found.setUdp s.clients.size [] = s.found := by
      rw [setUdp, Arcs.update_self s.found_value rfl]
    rw [cleanupUdp, hnil]
    exact hset
  have hvalue : (s.found.clients.clone s.clients.size).value s.clients.size = some ⟨[], []⟩ :=
    (Arcs.value_clone _).trans s.found_value
  obtain ⟨clients,howner,hconn⟩ := udpConn_fresh
    (s := { s.found with clients := s.found.clients.clone s.clients.size })
    ((hno.new ⟨[], []⟩).clone List.mem_cons_self) hvalue key
  have hsend : s.sendUdp key = ({ s.found.packetOpened s.clients.size with
      clients := clients
      conns := (s.found.packetOpened s.clients.size).conns.clone s.conns.size
      current := some (.packet s.clients.size s.conns.size) }, (none, s.clients.size)) := by
    rw [Runtime.sendUdp, clientFor_fresh hno]
    dsimp only
    rw [hcleanup, hconn]
    rfl
  rw [hsend]
  refine ⟨s.clients.size, s.conns.size, rfl, howner, h.found.packet s.clients.size rfl rfl rfl,
    Arcs.strong_new_clone _ _, ⟨s.streams.size, false⟩, ?_, ?_⟩
  · exact (Arcs.value_clone _).trans ((Arcs.value_new _ _).trans (if_pos rfl))
  · obtain ⟨v,hv,hlast⟩ := opened_newest s.found s.clients.size
    exact ⟨v, (Arcs.value_clone _).trans hv, hlast⟩

/-! ### Runs -/

def owners : Option InFlight → List Nat
  | some (.packet client _) => [client]
  | _ => []

structure Inv (s : Runtime) (lookups : List Lookup) : Prop where
  ledger : Ledger s lookups
  owners : s.clients.Counted (owners s.current)
  current : ∀ c ∈ s.current, s.Holds c

theorem Inv.finish {s : Runtime} {lookups : List Lookup} (h : Inv s lookups) : Inv s.finish lookups := by
  have howners := h.owners
  rw [Runtime.finish]
  split
  case h_1 stream hcurrent =>
    rw [hcurrent] at howners
    have hkeeps := (dropStream_keeps howners stream).trans (setCurrent_keeps _ none)
    exact ⟨h.ledger.keeps hkeeps, hkeeps.clients howners, fun c hc => by cases hc⟩
  case h_2 client conn hcurrent =>
    rw [hcurrent] at howners
    -- the map has the connection, too, so only the client is dropped
    have hdrop : s.dropConn conn = { s with conns := (s.conns.drop conn).1 } := by
      have hshared := Arcs.drop_shared (h.current _ hcurrent).1
      rw [dropConn]
      split
      case h_1 conns c heq =>
        rw [heq] at hshared
        cases hshared
      case h_2 conns heq => rw [heq]
    rw [hdrop]
    have hconns : Keeps s { s with conns := (s.conns.drop conn).1 } :=
      ⟨id, rfl, fun _ => rfl, fun _ h => h, fun _ h => .inl h⟩
    obtain ⟨hlast,hnone⟩ := dropClient_last (s := { s with conns := (s.conns.drop conn).1 }) howners
    exact ⟨h.ledger.keeps ((hconns.trans hlast).trans (setCurrent_keeps _ none)), hnone, fun c hc => by cases hc⟩
  case h_3 => exact h

theorem Inv.connect {s : Runtime} {lookups : List Lookup} (h : Inv s lookups) (hidle : s.current = none) :
    Inv s.connect.1 (lookups ++ [s.connect.2]) := by
  have howners := h.owners
  rw [hidle] at howners
  obtain ⟨hnone,hledger,stream,hcurrent,hnewest⟩ := h.ledger.connect howners
  refine ⟨hledger, ?_, fun c hc => ?_⟩
  · rw [hcurrent]
    exact hnone
  · rw [hcurrent] at hc
    cases hc
    exact hnewest

theorem Inv.sendUdp {s : Runtime} {lookups : List Lookup} (h : Inv s lookups) (hidle : s.current = none)
    (key : String) : Inv (s.sendUdp key).1 (lookups ++ [(s.sendUdp key).2]) := by
  have howners := h.owners
  rw [hidle] at howners
  obtain ⟨client,conn,hcurrent,howner,hledger,hholds⟩ := h.ledger.sendUdp howners key
  refine ⟨hledger, ?_, fun c hc => ?_⟩
  · rw [hcurrent]
    exact howner
  · rw [hcurrent] at hc
    cases hc
    exact hholds

/-- The tasks that end are not readers. -/
theorem Inv.endTask {s s' : Runtime} {lookups : List Lookup} (h : Inv s lookups) {i : Nat} {task : Spawned}
    (htask : s.tasks[i]? = some task) (hreader : ∀ session, task ≠ .readLoop session)
    (hclients : s'.clients = s.clients) (hsize : s'.sessions.size = s.sessions.size)
    (hstreams : s'.streams = s.streams) (hconns : s'.conns = s.conns) (hcurrent : s'.current = s.current)
    (htasks : s'.tasks = s.tasks.eraseIdx i) : Inv s' lookups := by
  have hold : ∀ task ∈ s'.tasks, task ∈ s.tasks := fun task hmem => by
    rw [htasks] at hmem
    exact List.mem_of_mem_eraseIdx hmem
  have hnewest : ∀ stream, s.Newest stream → s'.Newest stream := by
    rintro stream ⟨v,hv,hlast⟩
    exact ⟨v, by rw [hstreams, hv], hlast.trans hsize.symm⟩
  refine ⟨⟨h.ledger.missed, hsize.trans h.ledger.opened, fun session => ?_, fun stream hmem => ?_,
    fun client session hmem => h.ledger.noRelease client session (hold _ hmem)⟩, ?_, fun c hc => ?_⟩
  · rw [hsize, ← h.ledger.readers]
    refine ⟨hold _, fun hmem => ?_⟩
    obtain ⟨k,hk⟩ := List.mem_iff_getElem?.mp hmem
    rw [htasks]
    refine List.mem_eraseIdx_iff_getElem?.mpr ⟨k, ?_, hk⟩
    rintro rfl
    exact hreader session (Option.some.inj (htask.symm.trans hk))
  · rw [hsize, hstreams]
    exact h.ledger.uotReaders stream (hold _ hmem)
  · rw [hclients, hcurrent]
    exact h.owners
  · rw [hcurrent] at hc
    have hholds := h.current c hc
    cases c with
    | stream stream => exact hnewest stream hholds
    | packet client conn =>
      obtain ⟨hshared,v,hv,hlast⟩ := hholds
      exact ⟨by rw [hconns]; exact hshared, v, by rw [hconns, hv], hnewest v.stream hlast⟩

theorem Inv.runTask {s : Runtime} {lookups : List Lookup} (h : Inv s lookups) (i : Nat) :
    Inv (s.runTask i) lookups := by
  rw [Runtime.runTask]
  split
  case h_1 session htask =>
    split
    case isTrue => exact h.endTask htask (fun _ heq => by cases heq) rfl rfl rfl rfl rfl rfl
    case isFalse => exact h
  case h_2 session htask => exact h.endTask htask (fun _ heq => by cases heq) rfl Arcs.size_drop rfl rfl rfl rfl
  case h_3 client session htask => exact absurd (List.mem_of_getElem? htask) (h.ledger.noRelease client session)
  case h_4 => exact h

theorem Inv.step {s : Runtime} {lookups : List Lookup} (h : Inv s lookups) (event : Event) :
    Inv (s.step event).1 (lookups ++ (s.step event).2) := by
  have hsame : ∀ {s'}, Inv s' lookups → Inv s' (lookups ++ []) := fun h => by
    rw [List.append_nil]
    exact h
  cases event with
  | connect =>
    rw [Runtime.step]
    split
    case isTrue hidle => exact h.connect hidle
    case isFalse => exact hsame h
  | sendUdp key =>
    rw [Runtime.step]
    split
    case isTrue hidle => exact h.sendUdp hidle key
    case isFalse => exact hsame h
  | finish => exact hsame h.finish
  | task i => exact hsame (h.runTask i)

theorem new_inv : Inv new [] where
  ledger := {
    missed := fun _ hl => (List.not_mem_nil hl).elim
    opened := rfl
    readers := fun _ => ⟨fun h => (List.not_mem_nil h).elim, fun h => absurd h (Nat.not_lt_zero _)⟩
    uotReaders := fun _ hmem => (List.not_mem_nil hmem).elim
    noRelease := fun _ _ => List.not_mem_nil }
  owners := .empty
  current _ h := by cases h

theorem run_inv (events : List Event) : Inv (run step new events).1 (run step new events).2 :=
  run_invariant Inv (fun _ _ event h _ => h.step event) new_inv events
    (meets_of_forall (fun _ _ _ => trivial) _)

/-! ### Reuse -/

def connSession (s : Runtime) (conn : Nat) : Option Nat :=
  (s.conns.value conn).bind fun c => (s.streams.value c.stream).map AnyTlsStream.session

/-- The request in flight or the cache leads to the connection of the session. -/
def Reaches (s : Runtime) (session : Nat) : Prop :=
  (∃ stream, s.current = some (.stream stream) ∧
    (s.streams.value stream).map AnyTlsStream.session = some session) ∨
  (∃ client conn, s.current = some (.packet client conn) ∧ s.connSession conn = some session) ∨
  ∃ client, s.clients.upgrade s.entry = some client ∧
    (session ∈ s.idle client ∨ ∃ e ∈ s.udp client, s.connSession e.2 = some session)

/-- The session whose connection a reader task reads from. -/
def readsFrom (s : Runtime) : Spawned → Option Nat
  | .readLoop session => some session
  | .uotReader stream => (s.streams.value stream).map AnyTlsStream.session
  | _ => none

/-- The cached client survives: it is found again, there is one connection, and no reader is
left behind. -/
structure Survives (s : Runtime) (lookups : List Lookup) : Prop where
  found : FindFirst lookups
  opened : lookups ≠ [] → s.sessions.size = 1
  readers : ∀ task ∈ s.tasks, ∀ session ∈ s.readsFrom task, s.Reaches session

theorem Inv.reaches {s : Runtime} {lookups : List Lookup} (h : Inv s lookups) (hbusy : s.current ≠ none)
    {session : Nat} (hlast : session + 1 = s.sessions.size) : s.Reaches session := by
  obtain ⟨c,hc⟩ := Option.ne_none_iff_exists'.mp hbusy
  have hholds := h.current c hc
  cases c with
  | stream stream =>
    obtain ⟨v,hv,hv'⟩ := hholds
    refine .inl ⟨stream, hc, ?_⟩
    rw [hv, Option.map_some]
    exact congrArg some (by omega)
  | packet client conn =>
    obtain ⟨_,c,hconn,v,hv,hv'⟩ := hholds
    refine .inr (.inl ⟨client, conn, hc, ?_⟩)
    rw [connSession, hconn, Option.bind_some, hv, Option.map_some]
    exact congrArg some (by omega)

/-- The client survives as long as the first request has not ended. -/
theorem Inv.survives_iff {s : Runtime} {lookups : List Lookup} (h : Inv s lookups) :
    s.Survives lookups ↔ lookups.length ≤ 1 ∧ (lookups ≠ [] → s.current ≠ none) := by
  constructor
  · intro hsurvives
    refine ⟨(findFirst_iff h.ledger.missed).mp hsurvives.found, fun hne hidle => ?_⟩
    have hpos : 0 < s.sessions.size := by
      rw [hsurvives.opened hne]
      exact Nat.one_pos
    have howners := h.owners
    rw [hidle] at howners
    obtain ⟨_,hcurrent,_⟩ | ⟨_,_,hcurrent,_⟩ | ⟨_,hcached,_⟩ :=
      hsurvives.readers _ ((h.ledger.readers 0).mpr hpos) 0 rfl
    · cases hidle.symm.trans hcurrent
    · cases hidle.symm.trans hcurrent
    · cases (howners.upgrade_nil s.entry).symm.trans hcached
  · rintro ⟨hle,hbusy⟩
    have hopened := h.ledger.opened
    refine ⟨(findFirst_iff h.ledger.missed).mpr hle, fun hne => ?_, fun task htask session hsession => ?_⟩
    · have hpos := List.length_pos_iff.mpr hne
      omega
    · have hlt : session < s.sessions.size := by
        cases task with
        | readLoop r =>
          cases hsession
          exact (h.ledger.readers session).mp htask
        | uotReader stream =>
          obtain ⟨v,hv,hlt⟩ := h.ledger.uotReaders stream htask
          rw [readsFrom, hv] at hsession
          cases hsession
          exact hlt
        | writeLoop | unregister | release => cases hsession
      have hne : lookups ≠ [] := List.length_pos_iff.mp (by omega)
      exact h.reaches (hbusy hne) (by omega)

end Runtime
end AnyTls

/-- No request finds what an earlier one has made, each opens a connection of its own, and so
the cached client survives exactly until the first request ends. -/
theorem cached_clients_survive_iff (packets : List VlessUdp.Event) (events : List AnyTls.Event) :
    (let r := run VlessUdp.Runtime.step .new packets;
      (r.1.Survives r.2 ↔ r.2.length ≤ 1 ∧ (r.2 ≠ [] → r.1.current ≠ none)) ∧
        (∀ l ∈ r.2, l.1 = none) ∧ r.1.streams.size = r.2.length) ∧
    (let r := run AnyTls.Runtime.step .new events;
      (r.1.Survives r.2 ↔ r.2.length ≤ 1 ∧ (r.2 ≠ [] → r.1.current ≠ none)) ∧
        (∀ l ∈ r.2, l.1 = none) ∧ r.1.sessions.size = r.2.length) := by
  constructor
  · have h := VlessUdp.Runtime.run_inv packets
    exact ⟨h.survives_iff, h.missed, h.opened⟩
  · have h := AnyTls.Runtime.run_inv events
    exact ⟨h.survives_iff, h.ledger.missed, h.ledger.opened⟩

/-- Two packets through VLESS, and two streams of AnyTLS, one after the other. -/
theorem cached_clients_are_lost :
    (¬ ∀ events : List VlessUdp.Event, let r := run VlessUdp.Runtime.step .new events; r.1.Survives r.2) ∧
      ¬ ∀ events : List AnyTls.Event, let r := run AnyTls.Runtime.step .new events; r.1.Survives r.2 := by
  constructor
  · intro h
    have hfound := (h [.sendUdp, .finish, .sendUdp]).found
    have hlookups : (run VlessUdp.Runtime.step .new [.sendUdp, .finish, .sendUdp]).2 =
        [(none, 0), (none, 1)] := by decide
    rw [hlookups] at hfound
    cases hfound _ List.mem_cons_self
  · intro h
    have hfound := (h [.connect, .finish, .task 2, .connect]).found
    have hlookups : (run AnyTls.Runtime.step .new [.connect, .finish, .task 2, .connect]).2 =
        [(none, 0), (none, 1)] := by decide
    rw [hlookups] at hfound
    cases hfound _ List.mem_cons_self

end AtlasKernel.Adapter
