import AtlasKernel.Lib.Steps
import AtlasKernel.Socks.UdpPacket

/-! A SOCKS5 UDP association as its events come: reads of the control connection, datagrams
on the socket, and relays that come to their end. Source: `handle_socks5_udp_associate` in
`main.rs`. -/
namespace AtlasKernel.Socks
open AtlasKernel.Lib AtlasKernel.Vless AtlasKernel.Shadowsocks
variable {Peer : Type}

def socksUdpMaxInFlight : Nat := 512

/-- A task that has taken its permit and waits for `send_udp`. -/
structure Relay (Peer : Type) where
  target : TargetAddress
  payload : Bytes
  peer : Peer
deriving DecidableEq, Repr

/-- `result` is what the function returned, if it did. The relays go on without it. -/
structure Association (Peer : Type) where
  result : Option (Except Failure Unit)
  inFlight : List (Relay Peer)
deriving DecidableEq, Repr

/-- The branches of the loop, and the end of the relay at a place among those in flight. The
control connection is read byte by byte. -/
inductive AssociationEvent (Peer : Type) where
  | control (read : Except String (Option UInt8))
  | packet (received : Except String (Bytes × Peer))
  | relayDone (place : Nat) (reply : Except String Bytes)
deriving DecidableEq, Repr

inductive AssociationOutput (Peer : Type) where
  | relayed (relay : Relay Peer)
  | dropped (target : TargetAddress)
  | sent (packet : Bytes) (peer : Peer)
  | warned (message : String) (target : TargetAddress)
deriving DecidableEq, Repr

/-- The end of a relay: the reply is sent to the peer under the target it asked for. -/
def finishRelay (relay : Relay Peer) : Except String Bytes → AssociationOutput Peer
  | .ok reply =>
    match buildSocksUdpPacket relay.target reply with
    | .ok packet => .sent packet relay.peer
    | .error _ => .warned "SOCKS UDP response build failed" relay.target
  | .error _ => .warned "SOCKS UDP relay failed" relay.target

namespace Association

def new : Association Peer := ⟨none, []⟩

def receive (a : Association Peer) (data : Bytes) (peer : Peer) :
    Association Peer × List (AssociationOutput Peer) :=
  match parseSocksUdpPacket data with
  | .error err => ({ a with result := some (.error err) }, [])
  | .ok (target, payload) =>
    if socksUdpMaxInFlight ≤ a.inFlight.length then (a, [.dropped target])
    else
      let relay : Relay Peer := ⟨target, payload, peer⟩
      ({ a with inFlight := a.inFlight ++ [relay] }, [.relayed relay])

/-- One turn of the loop. -/
def turn (a : Association Peer) : AssociationEvent Peer →
    Association Peer × List (AssociationOutput Peer)
  | .control (.error err) => ({ a with result := some (.error (.bail err)) }, [])
  | .control (.ok none) => ({ a with result := some (.ok ()) }, [])
  | .control (.ok (some _)) => (a, [])
  | .packet (.error err) => ({ a with result := some (.error (.bail err)) }, [])
  | .packet (.ok (data, peer)) => a.receive data peer
  | .relayDone _ _ => (a, [])

def step (a : Association Peer) (event : AssociationEvent Peer) :
    Association Peer × List (AssociationOutput Peer) :=
  match event with
  | .relayDone place reply =>
    match a.inFlight[place]? with
    | none => (a, [])
    | some relay => ({ a with inFlight := a.inFlight.eraseIdx place }, [finishRelay relay reply])
  | event => if a.result.isSome then (a, []) else a.turn event

end Association

/-! ## Events -/

/-- The control connection is closed, or broken. -/
def AssociationEvent.closesControl : AssociationEvent Peer → Bool
  | .control (.ok (some _)) => false
  | .control _ => true
  | _ => false

/-- A datagram that is none of SOCKS5. -/
def AssociationEvent.malformed : AssociationEvent Peer → Bool
  | .packet (.ok (data, _)) => !decide (WellFormed data)
  | _ => false

def AssociationEvent.socketFails : AssociationEvent Peer → Bool
  | .packet (.error _) => true
  | _ => false

/-- Until the control connection ends, all datagrams are well formed and the socket gives no
error. -/
def Calm (events : List (AssociationEvent Peer)) : Prop :=
  ∀ event ∈ events.takeWhile fun event => !event.closesControl,
    event.malformed = false ∧ event.socketFails = false

namespace Association

/-- The association is open until its control connection ends. -/
def StaysOpen (a : Association Peer) (events : List (AssociationEvent Peer)) : Prop :=
  ∀ before, before <+: events → (∀ event ∈ before, event.closesControl = false) →
    (run step a before).1.result = none

/-- Every well-formed datagram that comes before the control connection ends is relayed, or
dropped for want of a permit. -/
def Handles (a : Association Peer) (events : List (AssociationEvent Peer)) : Prop :=
  ∀ before endpoint payload peer, endpoint.host.Fits →
    before ++ [.packet (.ok (udpPacket endpoint payload, peer))] <+: events →
    (∀ event ∈ before, event.closesControl = false) →
    ((run step a before).1.step (.packet (.ok (udpPacket endpoint payload, peer)))).2 =
      if socksUdpMaxInFlight ≤ (run step a before).1.inFlight.length
      then [.dropped (targetOf endpoint)]
      else [.relayed ⟨targetOf endpoint, payload, peer⟩]

/-- What happens to the datagrams is what happens to them without the malformed ones. -/
def Unaffected (a : Association Peer) (events : List (AssociationEvent Peer)) : Prop :=
  (run step a events).2 = (run step a (events.filter fun event => !event.malformed)).2

/-! ## One event -/

theorem receive_open_iff {a : Association Peer} (ha : a.result = none) (data : Bytes)
    (peer : Peer) : (a.receive data peer).1.result = none ↔ WellFormed data := by
  rw [wellFormed_iff, receive]
  cases hparse : parseSocksUdpPacket data with
  | error err => simp [Except.isOk, Except.toBool]
  | ok r =>
    obtain ⟨target,payload⟩ := r
    dsimp only
    split <;> simp [ha, Except.isOk, Except.toBool]

/-- Of what leaves the control connection open, only a malformed datagram and an error of the
socket end the association. -/
theorem step_open_iff {a : Association Peer} (ha : a.result = none)
    {event : AssociationEvent Peer} (hcontrol : event.closesControl = false) :
    (a.step event).1.result = none ↔ event.malformed = false ∧ event.socketFails = false := by
  cases event with
  | control read =>
    match read, hcontrol with
    | .ok (some b), _ => simp [step, turn, ha, AssociationEvent.malformed, AssociationEvent.socketFails]
  | packet received =>
    cases received with
    | error err => simp [step, turn, ha, AssociationEvent.socketFails]
    | ok r =>
      obtain ⟨data,peer⟩ := r
      have hstep : a.step (.packet (.ok (data,peer))) = a.receive data peer := by
        simp [step, turn, ha]
      rw [hstep, receive_open_iff ha]
      simp [AssociationEvent.malformed, AssociationEvent.socketFails]
  | relayDone place reply =>
    have hstep : (a.step (.relayDone place reply)).1.result = none := by
      rw [step]
      split
      · exact ha
      · exact ha
    simp [hstep, AssociationEvent.malformed, AssociationEvent.socketFails]

/-- Once the function has returned, nothing that comes in has an effect. -/
theorem step_ended {a : Association Peer} (ha : a.result.isSome = true)
    {event : AssociationEvent Peer} (hmalformed : event.malformed = true) :
    a.step event = (a,[]) := by
  cases event with
  | control read => cases hmalformed
  | packet received => simp [step, ha]
  | relayDone place reply => cases hmalformed

theorem step_stays_ended {a : Association Peer} (ha : a.result.isSome = true)
    (event : AssociationEvent Peer) : (a.step event).1.result.isSome = true := by
  cases event with
  | control read => simp [step, ha]
  | packet received => simp [step, ha]
  | relayDone place reply =>
    rw [step]
    split
    · exact ha
    · exact ha

theorem step_closesControl {a : Association Peer} (ha : a.result = none)
    {event : AssociationEvent Peer} (hcontrol : event.closesControl = true) :
    (a.step event).1.result.isSome = true := by
  cases event with
  | control read =>
    match read, hcontrol with
    | .ok none, _ => simp [step, turn, ha]
    | .error err, _ => simp [step, turn, ha]
  | packet received => cases hcontrol
  | relayDone place reply => cases hcontrol

/-! ## Whole runs -/

theorem staysOpen_cons {a : Association Peer} (ha : a.result = none)
    {event : AssociationEvent Peer} (hcontrol : event.closesControl = false)
    (events : List (AssociationEvent Peer)) :
    a.StaysOpen (event :: events) ↔
      (a.step event).1.result = none ∧ (a.step event).1.StaysOpen events := by
  constructor
  · intro h
    constructor
    · exact h [event] (List.cons_prefix_cons.mpr ⟨rfl,List.nil_prefix⟩) (by simpa using hcontrol)
    · intro before hbefore hopen
      exact h (event :: before) (List.cons_prefix_cons.mpr ⟨rfl,hbefore⟩)
        (List.forall_mem_cons.mpr ⟨hcontrol,hopen⟩)
  · rintro ⟨-,h⟩ before hbefore hopen
    cases before with
    | nil => exact ha
    | cons event' before =>
      obtain ⟨rfl,hrest⟩ := List.cons_prefix_cons.mp hbefore
      exact h before hrest (List.forall_mem_cons.mp hopen).2

theorem calm_cons {event : AssociationEvent Peer} (hcontrol : event.closesControl = false)
    (events : List (AssociationEvent Peer)) :
    Calm (event :: events) ↔
      (event.malformed = false ∧ event.socketFails = false) ∧ Calm events := by
  rw [Calm, List.takeWhile_cons_of_pos (by simp [hcontrol]), List.forall_mem_cons]
  rfl

theorem staysOpen_iff {a : Association Peer} (ha : a.result = none)
    (events : List (AssociationEvent Peer)) : a.StaysOpen events ↔ Calm events := by
  induction events generalizing a with
  | nil =>
    apply iff_of_true
    · intro before hbefore _
      rw [List.prefix_nil.mp hbefore]
      exact ha
    · intro event hevent
      cases hevent
  | cons event events ih =>
    cases hcontrol : event.closesControl with
    | true =>
      apply iff_of_true
      · intro before hbefore hopen
        cases before with
        | nil => exact ha
        | cons event' before =>
          obtain ⟨rfl,-⟩ := List.cons_prefix_cons.mp hbefore
          rw [hopen event' List.mem_cons_self] at hcontrol
          cases hcontrol
      · simp [Calm, hcontrol]
    | false =>
      rw [staysOpen_cons ha hcontrol, calm_cons hcontrol, ← step_open_iff ha hcontrol]
      exact and_congr_right fun hstay => ih hstay

theorem unaffected_ended {a : Association Peer} (ha : a.result.isSome = true)
    (events : List (AssociationEvent Peer)) : a.Unaffected events := by
  induction events generalizing a with
  | nil => rfl
  | cons event events ih =>
    rw [Unaffected]
    cases hmalformed : event.malformed with
    | true =>
      rw [List.filter_cons_of_neg (by simp [hmalformed]), run, step_ended ha hmalformed,
        List.nil_append]
      exact ih ha
    | false =>
      rw [List.filter_cons_of_pos (by simp [hmalformed]), run, run]
      exact congrArg ((a.step event).2 ++ ·) (ih (step_stays_ended ha event))

/-- Without malformed datagrams before the end, those behind it make no difference. -/
theorem unaffected_of_calm {a : Association Peer} (ha : a.result = none)
    {events : List (AssociationEvent Peer)} (h : Calm events) : a.Unaffected events := by
  induction events generalizing a with
  | nil => rfl
  | cons event events ih =>
    rw [Unaffected]
    cases hcontrol : event.closesControl with
    | true =>
      have hmalformed : event.malformed = false := by
        cases event with
        | control read => rfl
        | packet received => cases hcontrol
        | relayDone place reply => rfl
      rw [List.filter_cons_of_pos (by simp [hmalformed]), run, run]
      exact congrArg ((a.step event).2 ++ ·)
        (unaffected_ended (step_closesControl ha hcontrol) events)
    | false =>
      obtain ⟨hevent,hevents⟩ := (calm_cons hcontrol events).mp h
      rw [List.filter_cons_of_pos (by simp [hevent.1]), run, run]
      exact congrArg ((a.step event).2 ++ ·)
        (ih ((step_open_iff ha hcontrol).mpr hevent) hevents)

theorem step_wellFormed {a : Association Peer} (ha : a.result = none) {endpoint : Endpoint}
    (hfits : endpoint.host.Fits) (payload : Bytes) (peer : Peer) :
    (a.step (.packet (.ok (udpPacket endpoint payload, peer)))).2 =
      if socksUdpMaxInFlight ≤ a.inFlight.length then [.dropped (targetOf endpoint)]
      else [.relayed ⟨targetOf endpoint, payload, peer⟩] := by
  have hstep : a.step (.packet (.ok (udpPacket endpoint payload, peer))) =
      a.receive (udpPacket endpoint payload) peer := by
    simp [step, turn, ha]
  rw [hstep, receive, parse_udpPacket hfits]
  dsimp only
  split <;> rfl

/-- In every run: an association stays open until its control connection ends, and treats every
well-formed datagram as if the malformed ones had not come, exactly if none comes before that
end and the socket gives no error before it. -/
theorem udp_association_survives_iff (events : List (AssociationEvent Peer)) :
    ((new : Association Peer).StaysOpen events ∧ (new : Association Peer).Handles events ∧
      (new : Association Peer).Unaffected events) ↔ Calm events := by
  constructor
  · rintro ⟨hopen,-,-⟩
    exact (staysOpen_iff rfl events).mp hopen
  · intro h
    have hopen := (staysOpen_iff (a := (new : Association Peer)) rfl events).mpr h
    refine ⟨hopen,?_,unaffected_of_calm rfl h⟩
    intro before endpoint payload peer hfits hbefore hcontrol
    exact step_wellFormed (hopen before ((List.prefix_append ..).trans hbefore) hcontrol) hfits
      payload peer

/-- A fragment of a datagram, and the datagram of another client behind it. -/
theorem fragment_ends_association :
    let whole := udpPacket ⟨.ip (.v4 ⟨[1, 1, 1, 1],rfl⟩),53⟩ [7]
    let events : List (AssociationEvent Bool) :=
      [.packet (.ok ([0, 0, 1, 1, 1, 1, 1, 1, 0, 53, 7],false)), .packet (.ok (whole,true))]
    (run step new events).1.result = some (.error (.bail "invalid SOCKS UDP header")) ∧
    ¬ (new : Association Bool).StaysOpen events ∧ ¬ (new : Association Bool).Unaffected events := by
  intro whole events
  refine ⟨by decide +kernel,?_,?_⟩
  · rw [staysOpen_iff rfl, Calm]
    decide +kernel
  · rw [Unaffected]
    decide +kernel

end Association
end AtlasKernel.Socks
