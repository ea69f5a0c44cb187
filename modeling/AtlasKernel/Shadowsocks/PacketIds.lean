import AtlasKernel.Shadowsocks.PacketLane

/-! The session id and the packet ids that go into the packets of a direct UDP lane. The control
data has a lock of its own: a send draws it anew with a new socket and counts it up for each
packet, and a reply may change it too. Source: `adapter/shadowsocks/direct_udp.rs`. -/
namespace AtlasKernel.Shadowsocks
open AtlasKernel.Lib AtlasKernel.PacketSession

/-- As much of the control data of the shadowsocks crate as the lane reads or writes. -/
structure UdpSocketControlData where
  clientSessionId : UInt64
  serverSessionId : UInt64
  packetId : UInt64
deriving DecidableEq, Repr

/-- `reset_udp_control`, with what is drawn. -/
def resetUdpControl (clientSessionId : UInt64) (packetId : UInt32) : UdpSocketControlData :=
  ⟨clientSessionId, 0, packetId.toUInt64⟩

structure DirectUdpPacketConn (α : Type*) where
  lane : PacketLane α
  control : UdpSocketControlData

/-- The steps that touch the control data, and those of the lane that do not. A packet is
encrypted under the control data if it is `standard`, neither SSR nor of a legacy cipher. -/
inductive ConnEvent (α : Type*) where
  | opened (send : Nat) (clientSessionId : UInt64) (packetId : UInt32)
  | encode (send : Nat) (standard : Bool)
  | reply (reader : Nat) (targetKey : String) (payload : Bytes)
    (returnedControl : Option UdpSocketControlData)
  | lane (event : LaneEvent α)

inductive ConnOutput where
  | reset (clientSessionId : UInt64)
  | encrypted (clientSessionId packetId : UInt64)
deriving DecidableEq, Repr

def LaneEvent.ofControl {α : Type*} : LaneEvent α → Bool
  | .connect _ .connected | .register _ | .packet .. => true
  | _ => false

namespace DirectUdpPacketConn
variable {α : Type*} [DecidableEq α]

def new (unspecified : α) (clientSessionId : UInt64) (packetId : UInt32) : DirectUdpPacketConn α :=
  ⟨.new .directUdp unspecified, resetUdpControl clientSessionId packetId⟩

def delivers (s : DirectUdpPacketConn α) (reader : Nat) (targetKey : String) (payload : Bytes) : Bool :=
  s.lane.reads reader && (s.lane.pending.deliver targetKey (.ok payload)).2.2

def step (s : DirectUdpPacketConn α) : ConnEvent α → DirectUdpPacketConn α × List ConnOutput
  | .opened send clientSessionId packetId =>
    if (s.lane.sendAt send .opening).isSome then
      (⟨(s.lane.step (.connect send .connected)).1, resetUdpControl clientSessionId packetId⟩,
        [.reset clientSessionId])
    else (s, [])
  | .encode send standard =>
    let s' := { s with lane := (s.lane.step (.register send)).1 }
    match (s.lane.sendAt send .ready).map LaneSend.packet, standard with
    | some (.ok ()), true =>
      ({ s' with control := { s.control with packetId := s.control.packetId + 1 } },
        [.encrypted s.control.clientSessionId (s.control.packetId + 1)])
    | _, _ => (s', [])
  | .reply reader targetKey payload returnedControl =>
    let s' := { s with lane := (s.lane.step (.packet reader targetKey payload)).1 }
    match s.delivers reader targetKey payload, returnedControl with
    | true, some returned =>
      ({ s' with control := { s.control with serverSessionId := returned.serverSessionId } }, [])
    | _, _ => (s', [])
  | .lane event => (if event.ofControl then s else { s with lane := (s.lane.step event).1 }, [])

end DirectUdpPacketConn

/-- The session ids that were drawn, the one of the new lane first. -/
def sessionsIn (first : UInt64) (log : List ConnOutput) : List UInt64 :=
  first :: log.filterMap fun
    | .reset clientSessionId => some clientSessionId
    | .encrypted .. => none

/-- The session id and the packet id of every packet that was encrypted. -/
def packetsIn (log : List ConnOutput) : List (UInt64 × UInt64) :=
  log.filterMap fun
    | .encrypted clientSessionId packetId => some (clientSessionId, packetId)
    | .reset _ => none

@[simp] theorem sessionsIn_reset (first clientSessionId : UInt64) (log : List ConnOutput) :
    sessionsIn first (log ++ [.reset clientSessionId]) = sessionsIn first log ++ [clientSessionId] := by
  simp [sessionsIn]

@[simp] theorem sessionsIn_encrypted (first clientSessionId packetId : UInt64) (log : List ConnOutput) :
    sessionsIn first (log ++ [.encrypted clientSessionId packetId]) = sessionsIn first log := by
  simp [sessionsIn]

@[simp] theorem packetsIn_append (log log' : List ConnOutput) :
    packetsIn (log ++ log') = packetsIn log ++ packetsIn log' := List.filterMap_append

@[simp] theorem packetsIn_reset (clientSessionId : UInt64) :
    packetsIn [.reset clientSessionId] = [] := rfl

@[simp] theorem packetsIn_encrypted (clientSessionId packetId : UInt64) :
    packetsIn [.encrypted clientSessionId packetId] = [(clientSessionId, packetId)] := rfl

/-- How many packets were encrypted in a session. -/
def packetCount (clientSessionId : UInt64) (log : List ConnOutput) : Nat :=
  (packetsIn log).countP (·.1 = clientSessionId)

@[simp] theorem packetCount_append (clientSessionId : UInt64) (log log' : List ConnOutput) :
    packetCount clientSessionId (log ++ log') =
      packetCount clientSessionId log + packetCount clientSessionId log' := by
  simp [packetCount]

/-! ## One step -/

namespace DirectUdpPacketConn
variable {α : Type*} [DecidableEq α] {s : DirectUdpPacketConn α}

/-- What a step can do to the ids. -/
inductive Does (s s' : DirectUdpPacketConn α) : List ConnOutput → Prop where
  | reset (clientSessionId : UInt64) (packetId : UInt32) :
    s'.control = resetUdpControl clientSessionId packetId → Does s s' [.reset clientSessionId]
  | encrypted : s'.control = { s.control with packetId := s.control.packetId + 1 } →
    Does s s' [.encrypted s.control.clientSessionId (s.control.packetId + 1)]
  | keeps : s'.control.clientSessionId = s.control.clientSessionId →
    s'.control.packetId = s.control.packetId → Does s s' []

theorem step_does (s : DirectUdpPacketConn α) (event : ConnEvent α) :
    Does s (s.step event).1 (s.step event).2 := by
  cases event with
  | opened send clientSessionId packetId =>
    rw [step]
    split
    · exact .reset clientSessionId packetId rfl
    · exact .keeps rfl rfl
  | encode send standard =>
    simp only [step]
    split
    · exact .encrypted rfl
    · exact .keeps rfl rfl
  | reply reader targetKey payload returnedControl =>
    simp only [step]
    split
    · exact .keeps rfl rfl
    · exact .keeps rfl rfl
  | lane event =>
    rw [step]
    split
    · exact .keeps rfl rfl
    · exact .keeps rfl rfl

/-- Of two packets with one session id the later has the greater packet id, or that session id
was drawn more than once. -/
def Increasing (first : UInt64) (log : List ConnOutput) : Prop :=
  (packetsIn log).Pairwise fun p q => p.1 = q.1 → p.2 < q.2 ∨ 1 < (sessionsIn first log).count p.1

structure Inv (first : UInt64) (s : DirectUdpPacketConn α) (log : List ConnOutput) : Prop where
  increasing : Increasing first log
  drawn : s.control.clientSessionId ∈ sessionsIn first log
  sessions : ∀ p ∈ packetsIn log, p.1 ∈ sessionsIn first log
  latest : ∀ p ∈ packetsIn log, p.1 = s.control.clientSessionId →
    p.2 ≤ s.control.packetId ∨ 1 < (sessionsIn first log).count p.1
  room : s.control.packetId.toNat < 2 ^ 32 + packetCount s.control.clientSessionId log

theorem resetUdpControl_room (clientSessionId : UInt64) (packetId : UInt32) :
    (resetUdpControl clientSessionId packetId).packetId.toNat < 2 ^ 32 := by
  simpa [resetUdpControl] using packetId.toNat_lt

omit [DecidableEq α] in
theorem new_inv (unspecified : α) (clientSessionId : UInt64) (packetId : UInt32) :
    (new unspecified clientSessionId packetId).Inv clientSessionId [] := by
  refine ⟨.nil,List.mem_cons_self,fun _ h => absurd h List.not_mem_nil,
    fun _ h => absurd h List.not_mem_nil,?_⟩
  exact Nat.lt_of_lt_of_le (resetUdpControl_room clientSessionId packetId) (Nat.le_add_right _ _)

omit [DecidableEq α] in
/-- A session id that is drawn again counts twice. -/
theorem Inv.reset {first : UInt64} {log : List ConnOutput} (h : s.Inv first log)
    {s' : DirectUdpPacketConn α} {clientSessionId : UInt64} {packetId : UInt32}
    (hcontrol : s'.control = resetUdpControl clientSessionId packetId) :
    s'.Inv first (log ++ [.reset clientSessionId]) := by
  have hcount (id : UInt64) : (sessionsIn first log).count id ≤
      (sessionsIn first (log ++ [.reset clientSessionId])).count id := by simp
  have hroom := resetUdpControl_room clientSessionId packetId
  constructor
  · rw [Increasing, packetsIn_append, packetsIn_reset, List.append_nil]
    refine h.increasing.imp fun hpair hsame => ?_
    exact (hpair hsame).imp_right fun hmany => Nat.lt_of_lt_of_le hmany (hcount _)
  · simp [hcontrol, resetUdpControl]
  · intro p hp
    simp only [packetsIn_append, packetsIn_reset, List.append_nil] at hp
    rw [sessionsIn_reset]
    exact List.mem_append_left _ (h.sessions p hp)
  · intro p hp hsame
    simp only [packetsIn_append, packetsIn_reset, List.append_nil] at hp
    have hdrawn : 0 < (sessionsIn first log).count p.1 := List.count_pos_iff.mpr (h.sessions p hp)
    rw [hcontrol] at hsame
    right
    rw [sessionsIn_reset, List.count_append, hsame]
    rw [hsame] at hdrawn
    simp only [resetUdpControl, List.count_singleton_self] at hdrawn ⊢
    omega
  · rw [hcontrol]
    exact Nat.lt_of_lt_of_le hroom (Nat.le_add_right _ _)

omit [DecidableEq α] in
theorem Inv.encrypted {first : UInt64} {log : List ConnOutput} (h : s.Inv first log)
    {s' : DirectUdpPacketConn α}
    (hcontrol : s'.control = { s.control with packetId := s.control.packetId + 1 })
    (hfew : packetCount s.control.clientSessionId log < 2 ^ 63) :
    s'.Inv first (log ++ [.encrypted s.control.clientSessionId (s.control.packetId + 1)]) := by
  have hnext : (s.control.packetId + 1).toNat = s.control.packetId.toNat + 1 := by
    have hroom := h.room
    rw [UInt64.toNat_add]
    simp
    omega
  have hlt : s.control.packetId < s.control.packetId + 1 := by
    rw [UInt64.lt_iff_toNat_lt, hnext]
    exact Nat.lt_succ_self _
  constructor
  · rw [Increasing, packetsIn_append, packetsIn_encrypted, sessionsIn_encrypted, List.pairwise_append]
    refine ⟨h.increasing,List.pairwise_singleton _ _,fun p hp q hq hsame => ?_⟩
    rw [List.mem_singleton] at hq
    subst hq
    exact (h.latest p hp hsame).imp_left fun hle => UInt64.lt_of_le_of_lt hle hlt
  · simpa [hcontrol] using h.drawn
  · intro p hp
    rw [packetsIn_append, packetsIn_encrypted, List.mem_append, List.mem_singleton] at hp
    rw [sessionsIn_encrypted]
    cases hp with
    | inl hold => exact h.sessions p hold
    | inr hnew => exact hnew ▸ h.drawn
  · intro p hp hsame
    rw [packetsIn_append, packetsIn_encrypted, List.mem_append, List.mem_singleton] at hp
    rw [hcontrol] at hsame ⊢
    rw [sessionsIn_encrypted]
    cases hp with
    | inl hold =>
      exact (h.latest p hold hsame).imp_left fun hle => UInt64.le_of_lt (UInt64.lt_of_le_of_lt hle hlt)
    | inr hnew =>
      left
      rw [hnew]
      exact UInt64.le_refl _
  · have hcount : packetCount s.control.clientSessionId
        [.encrypted s.control.clientSessionId (s.control.packetId + 1)] = 1 := by
      simp [packetCount]
    have hroom := h.room
    rw [hcontrol]
    dsimp only
    rw [hnext, packetCount_append, hcount]
    omega

theorem Inv.step {first : UInt64} {log : List ConnOutput} (h : s.Inv first log) (event : ConnEvent α)
    (hfew : ∀ id, packetCount id log < 2 ^ 63) :
    (s.step event).1.Inv first (log ++ (s.step event).2) := by
  generalize hs' : (s.step event).1 = s'
  generalize hout : (s.step event).2 = out
  have hdoes := step_does s event
  rw [hs', hout] at hdoes
  cases hdoes with
  | keeps hsession hpacket =>
    rw [List.append_nil]
    constructor
    · exact h.increasing
    · rw [hsession]
      exact h.drawn
    · exact h.sessions
    · rw [hsession, hpacket]
      exact h.latest
    · rw [hsession, hpacket]
      exact h.room
  | reset clientSessionId packetId hcontrol => exact h.reset hcontrol
  | encrypted hcontrol => exact h.encrypted hcontrol (hfew _)

theorem run_inv (unspecified : α) (clientSessionId : UInt64) (packetId : UInt32)
    (events : List (ConnEvent α))
    (hfew : ∀ id, packetCount id (run step (new unspecified clientSessionId packetId) events).2 < 2 ^ 63) :
    (run step (new unspecified clientSessionId packetId) events).1.Inv clientSessionId
      (run step (new unspecified clientSessionId packetId) events).2 := by
  -- a prefix of the log has fewer packets
  refine @run_invariant _ _ _ step (fun _ _ => True) (fun (s : DirectUdpPacketConn α) log => (∀ id, packetCount id log < 2 ^ 63) → s.Inv clientSessionId log)
    ?_ _ [] (fun _ => new_inv unspecified clientSessionId packetId) events
    (meets_of_forall (fun _ _ _ => trivial) _) hfew
  intro s log event hlog _ hfew
  have hbefore : ∀ id, packetCount id log < 2 ^ 63 := by
    intro id
    have hcount := hfew id
    rw [packetCount_append] at hcount
    omega
  exact (hlog hbefore).step event hbefore

end DirectUdpPacketConn

/-- Over every run of a lane the packet ids of a session increase, whatever its replies bring,
unless the session id was drawn twice. -/
theorem packet_ids_increase {α : Type*} [DecidableEq α] (unspecified : α) (clientSessionId : UInt64)
    (packetId : UInt32) (events : List (ConnEvent α))
    (hfew : ∀ id, packetCount id
      (run DirectUdpPacketConn.step (.new unspecified clientSessionId packetId) events).2 < 2 ^ 63) :
    DirectUdpPacketConn.Increasing clientSessionId
      (run DirectUdpPacketConn.step (.new unspecified clientSessionId packetId) events).2 :=
  (DirectUdpPacketConn.run_inv unspecified clientSessionId packetId events hfew).increasing

/-- Two packets, one over each of two sockets, and a reply in between. -/
def twoSockets (clientSessionId : UInt64) : List (ConnEvent Unit) :=
  [.lane (.send "1.1.1.1:53" () (.ok ())), .lane (.lockState 0), .opened 0 7 5, .encode 0 true,
    .lane (.written 0 (.ok ())), .reply 0 "1.1.1.1:53" [1] (some ⟨9, 8, 0⟩), .lane (.wake 0),
    .lane (.elapse (120 * 10 ^ 9)), .lane (.send "1.1.1.1:53" () (.ok ())), .lane (.lockState 1),
    .opened 1 clientSessionId 5, .encode 1 true]

/-- The log of a lane that drew 6 when it was new. -/
def twoSocketsLog (clientSessionId : UInt64) : List ConnOutput :=
  (run DirectUdpPacketConn.step (.new () 6 1) (twoSockets clientSessionId)).2

theorem packet_ids_increase_two_sockets :
    DirectUdpPacketConn.Increasing 6 (twoSocketsLog 8) ∧
      packetsIn (twoSocketsLog 8) = [(7, 6), (8, 6)] := by
  have hlog : packetsIn (twoSocketsLog 8) = [(7, 6), (8, 6)] := by decide +kernel
  refine ⟨packet_ids_increase () 6 1 (twoSockets 8) fun id => ?_,hlog⟩
  have hcount : packetCount id (twoSocketsLog 8) ≤ (packetsIn (twoSocketsLog 8)).length :=
    List.countP_le_length
  rw [hlog] at hcount
  exact Nat.lt_of_le_of_lt hcount (by decide)

/-- A session id that is drawn again repeats a packet id. -/
theorem packet_id_repeats :
    ¬ (packetsIn (twoSocketsLog 7)).Pairwise fun p q => p.1 = q.1 → p.2 ≠ q.2 ∧ p.2 < q.2 := by
  decide +kernel

end AtlasKernel.Shadowsocks
