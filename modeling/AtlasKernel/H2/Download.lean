import AtlasKernel.H2.Transport
import AtlasKernel.Lib.Steps

/-! What the downloads over HTTP/2 do to the receive window of their stream. Every byte of
a DATA frame uses the window up until it is released. Source: `H2Transport` and the bridges
of `adapter/shadowsocks/transport.rs`, and those of `adapter/vless.rs`. -/
namespace AtlasKernel.H2
open AtlasKernel.Lib AtlasKernel.Shadowsocks

/-! ## The window -/

/-- The receiving half of a stream, as the library keeps it. `released` is what
`release_capacity` has given back; `queue` is what `poll_data` has not handed out. -/
structure RecvStream where
  window : Nat
  received : Nat
  released : Nat
  queue : List Bytes
  ending : Option (Option IoError)
deriving DecidableEq, Repr

namespace RecvStream

def new (window : Nat) : RecvStream := ⟨window, 0, 0, [], none⟩

def unreleased (s : RecvStream) : Nat := s.received - s.released

/-- What the peer may still send. -/
def room (s : RecvStream) : Nat := s.window - s.unreleased

/-- A DATA frame, which the peer sends only if the window has room for it. -/
def data (s : RecvStream) (frame : Bytes) : RecvStream :=
  if s.ending = none ∧ frame.length ≤ s.room then
    { s with received := s.received + frame.length, queue := s.queue ++ [frame] }
  else s

/-- The end of the stream, or a reset with its error. -/
def ends (s : RecvStream) (err : Option IoError) : RecvStream :=
  if s.ending = none then { s with ending := some err } else s

def pollData (s : RecvStream) : Poll (Option (IoResult Bytes)) × RecvStream :=
  match s.queue with
  | frame :: queue => (.ready (some (.ok frame)), { s with queue := queue })
  | [] =>
    match s.ending with
    | none => (.pending, s)
    | some none => (.ready none, s)
    | some (some err) => (.ready (some (.error err)), s)

/-- The window is used up by what the local side has yet to get, so that all of it is there
again once the local side has everything. -/
def Accounts (s : RecvStream) (undelivered : Nat) : Prop :=
  s.unreleased = undelivered ∧ (undelivered = 0 → s.room = s.window)

end RecvStream

/-! ## The transport -/

/-- `handed` is how many bytes the reads have handed out. -/
structure TransportDownload where
  transport : H2Transport RecvStream
  handed : Nat
deriving DecidableEq, Repr

inductive TransportEvent where
  | data (frame : Bytes)
  | ends (err : Option IoError)
  | read (room : Nat)
deriving DecidableEq, Repr

def handedOut : Poll (Except TransportError Bytes) → Bytes
  | .ready (.ok out) => out
  | _ => []

namespace TransportDownload

def new (window : Nat) (send : SendStream) : TransportDownload := ⟨.new (.new window) send, 0⟩

def onRecv (s : TransportDownload) (f : RecvStream → RecvStream) : TransportDownload :=
  { s with transport := { s.transport with recv := f s.transport.recv } }

def step (s : TransportDownload) : TransportEvent → TransportDownload × List Unit
  | .data frame => (s.onRecv (·.data frame), [])
  | .ends err => (s.onRecv (·.ends err), [])
  | .read room =>
    let r := s.transport.pollRead RecvStream.pollData room
    (⟨r.2, s.handed + (handedOut r.1).length⟩, [])

def undelivered (s : TransportDownload) : Nat :=
  s.transport.recv.queue.flatten.length + s.transport.readBuffer.length

end TransportDownload

/-! ## The gRPC hunks -/

/-- `read_protobuf_varint`: the value and its length. -/
def readProtobufVarintLoop (index : Nat) (value : UInt64) : Bytes → Option (UInt64 × Nat)
  | [] => none
  | byte :: data =>
    let value := value ||| ((byte &&& 0x7f).toUInt64 <<< UInt64.ofNat (index * 7))
    if byte &&& 0x80 = 0 then some (value, index + 1)
    else if 9 ≤ index then none
    else readProtobufVarintLoop (index + 1) value data

def readProtobufVarint (data : Bytes) : Option (UInt64 × Nat) := readProtobufVarintLoop 0 0 data

def decodeGrpcHunkMessage (message : Bytes) : Option Bytes :=
  match message with
  | 0x0a :: message' =>
    match readProtobufVarint message' with
    | none => none
    | some (len, offset) =>
      let start := 1 + offset
      let «end» := start + len.toNat
      -- the addition is checked, on 64 bits
      if «end» < 18446744073709551616 ∧ «end» ≤ message.length then some (slice message start «end»)
      else none
  | _ => none

/-- The loop of `GrpcHunkDecoder::push`. -/
def grpcHunks (pending : Bytes) : Bytes × List Bytes :=
  if pending.length < 5 then (pending, [])
  else
    let len := be32At pending 1
    if byteAt pending 0 ≠ 0 ∨ pending.length < 5 + len then (pending, [])
    else
      let r := grpcHunks (pending.drop (5 + len))
      (r.1, (decodeGrpcHunkMessage (slice pending 5 (5 + len))).toList ++ r.2)
termination_by pending.length
decreasing_by
  rw [List.length_drop]
  omega

/-! ## The bridges -/

inductive H2PayloadMode where
  | raw
  | grpcHunk
deriving DecidableEq, Repr

/-- `body` and `packet` are the bridges of VLESS, `spawn_h2_body_bridge` and
`spawn_h2_xhttp_packet_bridge`; the others those of Shadowsocks,
`spawn_h2_xhttp_stream_bridge`, `spawn_h2_xhttp_stream_up_bridge` and
`spawn_h2_xhttp_packet_bridge`. -/
inductive Bridge where
  | body (mode : H2PayloadMode)
  | packet
  | shadowsocksStream
  | shadowsocksStreamUp
  | shadowsocksPacket
deriving DecidableEq, Repr

/-- What a DATA frame makes of what is pending, and what is to be written to the local side. -/
def Bridge.push (bridge : Bridge) (pending data : Bytes) : Bytes × List Bytes :=
  match bridge with
  | .body .grpcHunk => grpcHunks (pending ++ data)
  | _ => (pending, [data])

/-- The download looks at `upload_failure` while it waits for data. -/
def Bridge.watchesUpload : Bridge → Bool
  | .body _ | .packet => false
  | .shadowsocksStream | .shadowsocksStreamUp | .shadowsocksPacket => true

/-- A download task from its response on. `framing` counts the bytes around the payloads that
are being written; `handed` those the task is done with. -/
structure BridgeDownload where
  recv : RecvStream
  pending : Bytes
  writing : List Bytes
  framing : Nat
  running : Bool
  handed : Nat
deriving DecidableEq, Repr

/-- `poll` asks for the next chunk; `write` is how much of a write the local side takes. -/
inductive BridgeEvent where
  | data (frame : Bytes)
  | ends (err : Option IoError)
  | poll
  | write (n : Nat)
  | writeError
  | uploadFails
deriving DecidableEq, Repr

namespace BridgeDownload

def new (window : Nat) : BridgeDownload := ⟨.new window, [], [], 0, true, 0⟩

/-- A write of nothing is over at once, and after the last one the frame is dealt with. -/
def settle (s : BridgeDownload) : BridgeDownload :=
  match s.writing.dropWhile (· = []) with
  | [] => { s with writing := [], framing := 0, handed := s.handed + s.framing }
  | writing => { s with writing := writing }

def step (bridge : Bridge) (s : BridgeDownload) : BridgeEvent → BridgeDownload × List Unit
  | .data frame => ({ s with recv := s.recv.data frame }, [])
  | .ends err => ({ s with recv := s.recv.ends err }, [])
  | .poll =>
    if s.running ∧ s.writing = [] then
      match s.recv.pollData with
      | (.pending, recv) => ({ s with recv := recv }, [])
      | (.ready (some (.ok data)), recv) =>
        let r := bridge.push s.pending data
        ({ s with
          recv := recv
          pending := r.1
          writing := r.2
          framing := s.pending.length + data.length - r.1.length - r.2.flatten.length }.settle, [])
      | (.ready _, recv) => ({ s with recv := recv, running := false }, [])
    else (s, [])
  | .write n =>
    match s.running, s.writing with
    | true, hunk :: writing =>
      ({ s with writing := hunk.drop n :: writing, handed := s.handed + min n hunk.length }.settle, [])
    | _, _ => (s, [])
  | .writeError => (if s.writing = [] then s else { s with running := false }, [])
  | .uploadFails =>
    (if bridge.watchesUpload ∧ s.writing = [] then { s with running := false } else s, [])

def undelivered (s : BridgeDownload) : Nat :=
  s.recv.queue.flatten.length + s.pending.length + s.framing + s.writing.flatten.length

end BridgeDownload

/-! ## Every byte is accounted for -/

/-- Nothing has been released, and what has been received is still on its way or is done with. -/
structure Conserved (window : Nat) (recv : RecvStream) (undelivered handed : Nat) : Prop where
  released : recv.released = 0
  received : recv.received = undelivered + handed
  within : recv.received ≤ recv.window
  sized : recv.window = window

theorem Conserved.accounts_iff {window : Nat} {recv : RecvStream} {undelivered handed : Nat}
    (h : Conserved window recv undelivered handed) : recv.Accounts undelivered ↔ handed = 0 := by
  have hunreleased : recv.unreleased = undelivered + handed := by
    rw [RecvStream.unreleased, h.released, Nat.sub_zero, h.received]
  rw [RecvStream.Accounts, RecvStream.room, hunreleased]
  constructor
  · rintro ⟨heq,_⟩
    omega
  · rintro rfl
    refine ⟨rfl, ?_⟩
    rintro rfl
    rfl

theorem Conserved.data {window : Nat} {recv : RecvStream} {undelivered handed : Nat}
    (h : Conserved window recv (recv.queue.flatten.length + undelivered) handed) (frame : Bytes) :
    Conserved window (recv.data frame) ((recv.data frame).queue.flatten.length + undelivered) handed := by
  rw [RecvStream.data]
  split
  case isFalse => exact h
  case isTrue hroom =>
    obtain ⟨_,hle⟩ := hroom
    have hreceived := h.received
    have hwithin := h.within
    rw [RecvStream.room, RecvStream.unreleased, h.released] at hle
    refine ⟨h.released, ?_, ?_, h.sized⟩
    · simp only [List.flatten_append, List.length_append, List.flatten_singleton]
      omega
    · dsimp only
      omega

theorem Conserved.ends {window : Nat} {recv : RecvStream} {undelivered handed : Nat}
    (h : Conserved window recv (recv.queue.flatten.length + undelivered) handed) (err : Option IoError) :
    Conserved window (recv.ends err) ((recv.ends err).queue.flatten.length + undelivered) handed := by
  rw [RecvStream.ends]
  split
  · exact ⟨h.released, h.received, h.within, h.sized⟩
  · exact h

/-- A frame that `poll_data` hands out has left the queue; nothing else changes. -/
theorem pollData_cases (recv : RecvStream) :
    (∃ frame recv', recv.pollData = (.ready (some (.ok frame)), recv') ∧
      recv.queue.flatten.length = frame.length + recv'.queue.flatten.length ∧
      recv'.released = recv.released ∧ recv'.received = recv.received ∧ recv'.window = recv.window) ∨
    recv.pollData = (.pending, recv) ∨ recv.pollData = (.ready none, recv) ∨
    ∃ err, recv.pollData = (.ready (some (.error err)), recv) := by
  rw [RecvStream.pollData]
  cases hqueue : recv.queue with
  | cons frame queue =>
    refine .inl ⟨frame, _, rfl, ?_, rfl, rfl, rfl⟩
    rw [List.flatten_cons, List.length_append]
  | nil =>
    refine .inr ?_
    cases recv.ending with
    | none => exact .inl rfl
    | some err =>
      cases err with
      | none => exact .inr (.inl rfl)
      | some err => exact .inr (.inr ⟨err, rfl⟩)

namespace TransportDownload

def Inv (window : Nat) (s : TransportDownload) : Prop := Conserved window s.transport.recv s.undelivered s.handed

theorem Inv.step {window : Nat} {s : TransportDownload} (h : s.Inv window) (event : TransportEvent) :
    (s.step event).1.Inv window := by
  cases event with
  | data frame => exact Conserved.data h frame
  | ends err => exact Conserved.ends h err
  | read room =>
    have hreceived := h.received
    rw [undelivered] at hreceived
    rw [TransportDownload.step, Inv, undelivered]
    dsimp only
    rw [H2Transport.pollRead]
    cases hdrain : drainBuffer s.transport.readBuffer room with
    | some r =>
      obtain ⟨out,rest⟩ := r
      have hlen := congrArg List.length (drainBuffer_some hdrain).1
      rw [List.length_append] at hlen
      refine ⟨h.released, ?_, h.within, h.sized⟩
      dsimp only [handedOut]
      omega
    | none =>
      dsimp only
      obtain ⟨frame,recv',hpoll,hqueue,hreleased,hreceived',hwindow⟩ | hpoll | hpoll | ⟨err,hpoll⟩ :=
        pollData_cases s.transport.recv
      · rw [hpoll]
        dsimp only
        split
        · refine ⟨hreleased.trans h.released, ?_, hreceived' ▸ hwindow ▸ h.within, hwindow.trans h.sized⟩
          dsimp only [handedOut]
          omega
        · refine ⟨hreleased.trans h.released, ?_, hreceived' ▸ hwindow ▸ h.within, hwindow.trans h.sized⟩
          dsimp only [handedOut]
          rw [List.length_append, List.length_take, List.length_drop]
          omega
      · rw [hpoll]
        exact h
      · rw [hpoll]
        exact h
      · rw [hpoll]
        exact h

end TransportDownload

theorem decodeGrpcHunkMessage_length (message : Bytes) :
    (decodeGrpcHunkMessage message).toList.flatten.length ≤ message.length := by
  rw [decodeGrpcHunkMessage.eq_def]
  split
  case h_1 message' =>
    split
    case h_1 => exact Nat.zero_le _
    case h_2 len offset _ =>
      dsimp only
      split
      case isFalse => exact Nat.zero_le _
      case isTrue =>
        rw [Option.toList_some, List.flatten_singleton, slice_length]
        omega
  case h_2 => exact Nat.zero_le _

/-- The decoder hands out no more than it takes from what is pending. -/
theorem grpcHunks_length (pending : Bytes) :
    (grpcHunks pending).1.length + (grpcHunks pending).2.flatten.length ≤ pending.length := by
  induction pending using grpcHunks.induct with
  | case1 pending hshort =>
    rw [grpcHunks, if_pos hshort]
    exact le_rfl
  | case2 pending hlong len hwait =>
    have hstops : grpcHunks pending = (pending,[]) := by
      rw [grpcHunks, if_neg hlong]
      exact if_pos hwait
    rw [hstops]
    exact le_rfl
  | case3 pending hlong len hwhole ih =>
    have hmessage := decodeGrpcHunkMessage_length (slice pending 5 (5 + len))
    have hle : 5 + len ≤ pending.length := Nat.not_lt.mp fun hlt => hwhole (.inr hlt)
    have htakes : grpcHunks pending = ((grpcHunks (pending.drop (5 + len))).1,
        (decodeGrpcHunkMessage (slice pending 5 (5 + len))).toList ++
          (grpcHunks (pending.drop (5 + len))).2) := by
      rw [grpcHunks, if_neg hlong]
      exact if_neg hwhole
    -- by their equations, as the terms themselves are slow to compare
    obtain ⟨hrest,hout⟩ := Prod.mk.inj ((Prod.eta _).trans htakes)
    rw [slice_length, Nat.min_eq_left hle] at hmessage
    rw [List.length_drop] at ih
    rw [hrest, hout, List.flatten_append, List.length_append]
    omega

theorem Bridge.push_length (bridge : Bridge) (pending data : Bytes) :
    (bridge.push pending data).1.length + (bridge.push pending data).2.flatten.length ≤
      pending.length + data.length := by
  rw [Bridge.push.eq_def]
  split
  · exact (grpcHunks_length _).trans List.length_append.le
  · rw [List.flatten_singleton]

theorem flatten_dropWhile_nil (hunks : List Bytes) :
    (hunks.dropWhile (· = [])).flatten = hunks.flatten := by
  induction hunks with
  | nil => rfl
  | cons hunk hunks ih =>
    rw [List.dropWhile_cons]
    split
    case isTrue hnil =>
      rw [ih, of_decide_eq_true hnil]
      rfl
    case isFalse => rfl

namespace BridgeDownload

structure Inv (window : Nat) (s : BridgeDownload) : Prop where
  conserved : Conserved window s.recv s.undelivered s.handed
  idle : s.writing = [] → s.framing = 0

theorem settle_inv {window : Nat} {s : BridgeDownload}
    (h : Conserved window s.recv s.undelivered s.handed) : s.settle.Inv window := by
  have hreceived := h.received
  have hflat := flatten_dropWhile_nil s.writing
  rw [undelivered, ← hflat] at hreceived
  rw [settle]
  split
  case h_1 hdone =>
    rw [hdone] at hreceived
    refine ⟨⟨h.released, ?_, h.within, h.sized⟩, fun _ => rfl⟩
    rw [undelivered]
    simp only [List.flatten_nil, List.length_nil] at hreceived ⊢
    omega
  case h_2 hmore =>
    exact ⟨⟨h.released, hreceived, h.within, h.sized⟩, fun hnil => absurd hnil hmore⟩

theorem Inv.step {window : Nat} {s : BridgeDownload} (h : s.Inv window) (bridge : Bridge)
    (event : BridgeEvent) : (s.step bridge event).1.Inv window := by
  have hreceived := h.conserved.received
  rw [undelivered] at hreceived
  cases event with
  | data frame =>
    have hconserved := h.conserved
    rw [undelivered, Nat.add_assoc, Nat.add_assoc] at hconserved
    refine ⟨?_, h.idle⟩
    rw [undelivered, Nat.add_assoc, Nat.add_assoc]
    exact hconserved.data frame
  | ends err =>
    have hconserved := h.conserved
    rw [undelivered, Nat.add_assoc, Nat.add_assoc] at hconserved
    refine ⟨?_, h.idle⟩
    rw [undelivered, Nat.add_assoc, Nat.add_assoc]
    exact hconserved.ends err
  | poll =>
    rw [BridgeDownload.step]
    split
    case isFalse => exact h
    case isTrue hready =>
      have hframing := h.idle hready.2
      obtain ⟨frame,recv',hpoll,hqueue,hreleased,hreceived',hwindow⟩ | hpoll | hpoll | ⟨err,hpoll⟩ :=
        pollData_cases s.recv
      · rw [hpoll]
        have hpush := bridge.push_length s.pending frame
        rw [hready.2, hframing, List.flatten_nil, List.length_nil] at hreceived
        refine settle_inv ⟨hreleased.trans h.conserved.released, ?_,
          hreceived' ▸ hwindow ▸ h.conserved.within, hwindow.trans h.conserved.sized⟩
        rw [undelivered]
        dsimp only
        omega
      · rw [hpoll]
        exact h
      · rw [hpoll]
        exact ⟨⟨h.conserved.released, h.conserved.received, h.conserved.within, h.conserved.sized⟩, h.idle⟩
      · rw [hpoll]
        exact ⟨⟨h.conserved.released, h.conserved.received, h.conserved.within, h.conserved.sized⟩, h.idle⟩
  | write n =>
    rw [BridgeDownload.step]
    split
    case h_1 hunk writing _ hwriting =>
      refine settle_inv ⟨h.conserved.released, ?_, h.conserved.within, h.conserved.sized⟩
      rw [hwriting, List.flatten_cons, List.length_append] at hreceived
      rw [undelivered]
      dsimp only
      rw [List.flatten_cons, List.length_append, List.length_drop]
      omega
    case h_2 => exact h
  | writeError =>
    rw [BridgeDownload.step]
    split
    · exact h
    · exact ⟨⟨h.conserved.released, h.conserved.received, h.conserved.within, h.conserved.sized⟩, h.idle⟩
  | uploadFails =>
    rw [BridgeDownload.step]
    split
    · exact ⟨⟨h.conserved.released, h.conserved.received, h.conserved.within, h.conserved.sized⟩, h.idle⟩
    · exact h

end BridgeDownload

theorem TransportDownload.run_inv (window : Nat) (send : SendStream) (events : List TransportEvent) :
    (run TransportDownload.step (.new window send) events).1.Inv window :=
  @run_invariant _ _ _ TransportDownload.step (fun _ _ => True) (fun s _ => s.Inv window)
    (fun _ _ event hs _ => hs.step event) (.new window send) []
    ⟨rfl, rfl, Nat.zero_le _, rfl⟩ events
    (meets_of_forall (fun _ _ _ => trivial) _)

theorem BridgeDownload.run_inv (bridge : Bridge) (window : Nat) (events : List BridgeEvent) :
    (run (BridgeDownload.step bridge) (.new window) events).1.Inv window :=
  @run_invariant _ _ _ (BridgeDownload.step bridge) (fun _ _ => True) (fun s _ => s.Inv window)
    (fun _ _ event hs _ => hs.step bridge event) (.new window) []
    ⟨⟨rfl, rfl, Nat.zero_le _, rfl⟩, fun _ => rfl⟩ events (meets_of_forall (fun _ _ _ => trivial) _)

theorem Conserved.received_le {window : Nat} {recv : RecvStream} {undelivered handed : Nat}
    (h : Conserved window recv undelivered handed) : recv.received ≤ window := h.sized ▸ h.within

/-- No download ever gets more than one window of data, whatever the local side takes. -/
theorem received_le_window (window : Nat) :
    (∀ (send : SendStream) (events : List TransportEvent),
      (run TransportDownload.step (.new window send) events).1.transport.recv.received ≤ window) ∧
    (∀ (bridge : Bridge) (events : List BridgeEvent),
      (run (BridgeDownload.step bridge) (.new window) events).1.recv.received ≤ window) :=
  ⟨fun send events => (TransportDownload.run_inv window send events).received_le,
    fun bridge events => (BridgeDownload.run_inv bridge window events).conserved.received_le⟩

/-- In every state of a run the window accounts for what is undelivered exactly if nothing has
been handed to the local side yet. -/
theorem window_accounted_iff (window : Nat) :
    (∀ (send : SendStream) (events : List TransportEvent),
      (run TransportDownload.step (.new window send) events).1.transport.recv.Accounts
          (run TransportDownload.step (.new window send) events).1.undelivered ↔
        (run TransportDownload.step (.new window send) events).1.handed = 0) ∧
    (∀ (bridge : Bridge) (events : List BridgeEvent),
      (run (BridgeDownload.step bridge) (.new window) events).1.recv.Accounts
          (run (BridgeDownload.step bridge) (.new window) events).1.undelivered ↔
        (run (BridgeDownload.step bridge) (.new window) events).1.handed = 0) :=
  ⟨fun send events => (TransportDownload.run_inv window send events).accounts_iff,
    fun bridge events => (BridgeDownload.run_inv bridge window events).conserved.accounts_iff⟩

/-- One byte that is received and handed over stays missing from the window. -/
theorem window_not_accounted :
    ¬ (run TransportDownload.step (.new 65535 ⟨[], none, 0, []⟩) [.data [7], .read 8]).1.transport.recv.Accounts
      (run TransportDownload.step (.new 65535 ⟨[], none, 0, []⟩) [.data [7], .read 8]).1.undelivered ∧
    ¬ (run (BridgeDownload.step .packet) (.new 65535) [.data [7], .poll, .write 1]).1.recv.Accounts
      (run (BridgeDownload.step .packet) (.new 65535) [.data [7], .poll, .write 1]).1.undelivered := by
  constructor
  · rw [(TransportDownload.run_inv _ _ _).accounts_iff]
    decide +kernel
  · rw [(BridgeDownload.run_inv _ _ _).conserved.accounts_iff]
    decide +kernel

end AtlasKernel.H2
