import AtlasKernel.Shadowsocks.PacketLane

/-! The lanes that the packets for one server are shared out over. A send looks at the lanes
and takes one, which is one step; what the lanes do besides falls between the sends. Source:
`adapter/shadowsocks/uot.rs`, `adapter/shadowsocks/direct_udp.rs`. -/
namespace AtlasKernel.Shadowsocks
open AtlasKernel.Lib AtlasKernel.PacketSession

namespace PacketConn

def initialPoolLanes : PacketConn → Nat
  | .uot => 8
  | .directUdp => 8

def maxPoolLanes : PacketConn → Nat
  | .uot => 64
  | .directUdp => 64

end PacketConn

/-- `address` is that of the server: a pool has one. -/
structure PacketConnPool (α : Type*) where
  kind : PacketConn
  unspecified : α
  address : α
  now : Nat
  lanes : List (PacketLane α)
  next : UInt64

/-- What a lane does without a new send comes as `lane`. -/
inductive PoolEvent (α : Type*) where
  | send (targetKey : String) (packet : Except String Unit)
  | lane (index : Nat) (event : LaneEvent α)
  | elapse (nanos : Nat)

def LaneEvent.ofPool {α : Type*} : LaneEvent α → Bool
  | .send .. | .elapse _ => true
  | _ => false

def PacketLane.pendingCount {α : Type*} (lane : PacketLane α) : Nat := lane.pending.pendingCount

namespace PacketConnPool
variable {α : Type*} [DecidableEq α]

def newLane (kind : PacketConn) (unspecified : α) (now : Nat) : PacketLane α :=
  { PacketLane.new kind unspecified with now := now, lastUsed := now }

def new (kind : PacketConn) (unspecified address : α) : PacketConnPool α :=
  ⟨kind, unspecified, address, 0,
    List.replicate (min (max kind.initialPoolLanes 1) kind.maxPoolLanes) (newLane kind unspecified 0), 0⟩

/-- The lane has a connection that the next send to the server can go on with. -/
def isOpen (s : PacketConnPool α) (lane : PacketLane α) : Bool := (lane.reusable s.address).isSome

/-- A lane whose state is locked does not count as live. -/
def isLive (s : PacketConnPool α) (lane : PacketLane α) : Bool := lane.lock = none && s.isOpen lane

def growOrPickLane (s : PacketConnPool α) (idx : Nat) : Nat × PacketConnPool α :=
  if s.lanes.length < s.kind.maxPoolLanes then
    (s.lanes.length, { s with lanes := s.lanes ++ [newLane s.kind s.unspecified s.now] })
  else (idx % s.lanes.length, s)

/-- The lane that a send goes to, if there are lanes. -/
def pickLane (s : PacketConnPool α) : Option Nat × PacketConnPool α :=
  if s.lanes.isEmpty then (none, s)
  else
    match s.lanes.findIdx? fun lane => s.isLive lane && lane.pendingCount = 0 with
    | some idx => (some idx, s)
    | none =>
      let start := s.next.toNat % s.lanes.length
      match s.lanes[start]? with
      | some _ => (some start, { s with next := s.next + 1 })
      | none =>
        let r := growOrPickLane { s with next := s.next + 1 } start
        (some r.1, r.2)

def stepLane (s : PacketConnPool α) (idx : Nat) (event : LaneEvent α) : PacketConnPool α :=
  { s with lanes := s.lanes.modify idx fun lane => (lane.step event).1 }

/-- The output is the lane that a send has taken. -/
def step (s : PacketConnPool α) : PoolEvent α → PacketConnPool α × List Nat
  | .send targetKey packet =>
    match s.pickLane with
    | (none, s) => (s, [])
    | (some idx, s) => (s.stepLane idx (.send targetKey s.address packet), [idx])
  | .lane idx event => (if event.ofPool then s else s.stepLane idx event, [])
  | .elapse nanos =>
    ({ s with
      now := s.now + nanos
      lanes := s.lanes.map fun lane => (lane.step (.elapse nanos)).1 }, [])

/-! ## Growth before queueing -/

/-- While there may be more lanes, and every open lane has pending requests, a send takes a lane
that has none. -/
def GrowsFirst (s : PacketConnPool α) : PoolEvent α → Prop
  | .send .. => s.lanes.length < s.kind.maxPoolLanes →
    (∀ lane ∈ s.lanes, s.isOpen lane = true → 0 < lane.pendingCount) →
      ∃ idx lane, s.pickLane.1 = some idx ∧ s.pickLane.2.lanes[idx]? = some lane ∧
        lane.pendingCount = 0
  | _ => True

/-- A send finds an open lane without pending requests, or comes when the lane whose turn it is
has none. -/
def TurnIdle (s : PacketConnPool α) : PoolEvent α → Prop
  | .send .. => (∃ lane ∈ s.lanes, s.isOpen lane = true ∧ lane.pendingCount = 0) ∨
    (s.lanes[s.next.toNat % s.lanes.length]?).any (·.pendingCount = 0) = true
  | _ => True

instance (s : PacketConnPool α) : (event : PoolEvent α) → Decidable (s.TurnIdle event)
  | .send .. => inferInstanceAs (Decidable (_ ∨ _))
  | .lane .. | .elapse _ => .isTrue trivial

variable {s : PacketConnPool α}

omit [DecidableEq α] in
theorem turn_lt (hne : s.lanes ≠ []) : s.next.toNat % s.lanes.length < s.lanes.length :=
  Nat.mod_lt _ (List.length_pos_iff.mpr hne)

/-- Where no lane is found, the lane whose turn it is is taken, and none is added. -/
theorem pickLane_turn (hne : s.lanes ≠ [])
    (hbusy : ∀ lane ∈ s.lanes, s.isOpen lane = true → 0 < lane.pendingCount) :
    s.pickLane = (some (s.next.toNat % s.lanes.length), { s with next := s.next + 1 }) := by
  have hfind : s.lanes.findIdx? (fun lane => s.isLive lane && lane.pendingCount = 0) = none := by
    rw [List.findIdx?_eq_none_iff]
    intro lane hlane
    simp only [isLive, Bool.and_eq_false_iff, decide_eq_false_iff_not]
    by_cases hopen : s.isOpen lane = true
    · exact .inr (Nat.ne_of_gt (hbusy lane hlane hopen))
    · exact .inl (.inr (Bool.eq_false_of_not_eq_true hopen))
  have hempty : ¬ s.lanes.isEmpty = true := by simpa using hne
  rw [pickLane, if_neg hempty, hfind]
  simp only [List.getElem?_eq_getElem (turn_lt hne)]

theorem growsFirst_iff (hne : s.lanes ≠ []) (hmore : s.lanes.length < s.kind.maxPoolLanes)
    (event : PoolEvent α) : s.GrowsFirst event ↔ s.TurnIdle event := by
  cases event with
  | lane | elapse => rfl
  | send targetKey packet =>
    have hturn := List.getElem?_eq_getElem (turn_lt hne)
    constructor
    · intro hgrows
      by_cases hbusy : ∀ lane ∈ s.lanes, s.isOpen lane = true → 0 < lane.pendingCount
      · right
        obtain ⟨idx,lane,hidx,hlane,hidle⟩ := hgrows hmore hbusy
        rw [pickLane_turn hne hbusy] at hidx hlane
        cases hidx
        rw [hlane]
        simpa using hidle
      · left
        simpa using hbusy
    · intro hidle _ hbusy
      rw [pickLane_turn hne hbusy]
      cases hidle with
      | inl hopen =>
        obtain ⟨lane,hlane,hopen,hcount⟩ := hopen
        exact absurd hcount (Nat.ne_of_gt (hbusy lane hlane hopen))
      | inr hturn' =>
        rw [hturn] at hturn'
        exact ⟨_,_,rfl,hturn,by simpa using hturn'⟩

/-! ## No lane is ever added -/

theorem pickLane_lanes (hne : s.lanes ≠ []) :
    s.pickLane.2.lanes = s.lanes ∧ s.pickLane.2.kind = s.kind := by
  have hempty : ¬ s.lanes.isEmpty = true := by simpa using hne
  rw [pickLane, if_neg hempty]
  split
  · exact ⟨rfl,rfl⟩
  · simp [List.getElem?_eq_getElem (turn_lt hne)]

def Initial (kind : PacketConn) (s : PacketConnPool α) : Prop :=
  s.kind = kind ∧ s.lanes.length = kind.initialPoolLanes

omit [DecidableEq α] in
theorem Initial.ne_nil {kind : PacketConn} (h : s.Initial kind) : s.lanes ≠ [] := by
  apply List.ne_nil_of_length_pos
  rw [h.2]
  cases kind <;> decide

omit [DecidableEq α] in
theorem Initial.more {kind : PacketConn} (h : s.Initial kind) :
    s.lanes.length < s.kind.maxPoolLanes := by
  rw [h.1, h.2]
  cases kind <;> decide

omit [DecidableEq α] in
theorem new_initial (kind : PacketConn) (unspecified address : α) :
    (new kind unspecified address).Initial kind := by
  refine ⟨rfl,?_⟩
  rw [new, List.length_replicate]
  cases kind <;> rfl

theorem step_initial {kind : PacketConn} (event : PoolEvent α) (h : s.Initial kind) :
    (s.step event).1.Initial kind := by
  cases event with
  | send targetKey packet =>
    have hpick := pickLane_lanes h.ne_nil
    rw [step]
    split
    · next s' heq =>
      rw [heq] at hpick
      exact ⟨hpick.2.trans h.1,by rw [hpick.1, h.2]⟩
    · next idx s' heq =>
      rw [heq] at hpick
      refine ⟨hpick.2.trans h.1,?_⟩
      rw [stepLane, List.length_modify, hpick.1, h.2]
  | lane idx event =>
    rw [step]
    split
    · exact h
    · refine ⟨h.1,?_⟩
      rw [stepLane, List.length_modify, h.2]
  | elapse nanos =>
    refine ⟨h.1,?_⟩
    rw [step, List.length_map, h.2]

theorem run_initial (kind : PacketConn) (unspecified address : α) (events : List (PoolEvent α)) :
    (run step (new kind unspecified address) events).1.Initial kind :=
  @run_invariant _ _ _ step (fun _ _ => True) (fun s _ => s.Initial kind)
    (fun _ _ event h _ => step_initial event h) _ [] (new_initial kind unspecified address) events
    (meets_of_forall (fun _ _ _ => trivial) _)

/-- The sends of a run grow the pool before they queue exactly if each finds an idle lane that is
open, or one by its turn. -/
theorem run_growsFirst_iff (kind : PacketConn) (unspecified address : α) (events : List (PoolEvent α)) :
    Meets step GrowsFirst (new kind unspecified address) events ↔
      Meets step TurnIdle (new kind unspecified address) events :=
  meets_congr (fun _ event h => step_initial event h)
    (fun _ event h => growsFirst_iff h.ne_nil h.more event) (new_initial kind unspecified address) events

end PacketConnPool

/-- As many sends as there are lanes, each with a lane of its own that it opens. -/
def busyLanes : List (PoolEvent Unit) :=
  (List.range 8).flatMap fun idx => [.send "1.1.1.1:53" (.ok ()), .lane idx (.lockState 0),
    .lane idx (.connect 0 .connected), .lane idx (.register 0)]

/-- Every lane is open and has a request, and the next one queues behind the first. -/
theorem busyLanes_queues (kind : PacketConn) : ¬ Meets PacketConnPool.step PacketConnPool.GrowsFirst
    (.new kind () ()) (busyLanes ++ [.send "8.8.8.8:53" (.ok ())]) := by
  rw [PacketConnPool.run_growsFirst_iff]
  cases kind <;> decide +kernel

end AtlasKernel.Shadowsocks
