import AtlasKernel.Hysteria2.Fragments

/-! The exchanges of the UDP relay. Every call enters a session under a number of its own, sends its
message and waits for one reply; one loop reads the datagrams and passes each message to the call
whose session it names. Between the awaits other calls go on, and calls are given up. Source:
`udp_session_manager.rs` of the `hysteria2` package. -/
namespace AtlasKernel.Hysteria2
open AtlasKernel.Lib

/-! ## Calls and the loop -/

/-- The errors of `exchange`. -/
inductive ExchangeError where
  | quicDatagramSend
  | udpTimeout
  | udpSessionClosed
deriving DecidableEq

/-- Where a call of `exchange` waits. -/
inductive ExchangePhase where
  | registering
  | sending (rest : List UdpMessage)
  | receiving
  | leaving
  | finished

/-- The queue is the one of its channel. -/
structure Exchange where
  sessionId : UInt32
  address : String
  payload : Bytes
  phase : ExchangePhase
  queue : List UdpMessage

/-- Where `receive_loop` waits: for a datagram, for the sessions, or for room in the queue of a
call. -/
inductive LoopPhase where
  | reading
  | found (message : UdpMessage)
  | passing (call : Nat) (message : UdpMessage)
  | clearing
  | ended

structure UdpSessionManager where
  nextId : UInt32
  sessions : UInt32 → Option Nat
  exchanges : List Exchange
  defraggers : SessionDefraggers
  loop : LoopPhase

/-- What a call meets when it goes on: the number drawn for its packet, the size that the connection
allows, whether a datagram is sent, and whether its time is over. -/
structure ExchangeTurn where
  packetId : UInt16
  maxDatagramSize : Option Nat
  sent : Bool
  expired : Bool

inductive UdpEvent where
  | exchange (address : String) (payload : Bytes)
  | run (call : Nat) (turn : ExchangeTurn)
  | cancel (call : Nat)
  | datagram (bytes : Bytes)
  | lost
  | pass

inductive UdpOutput where
  | registered (call : Nat)
  | sent (call : Nat) (datagram : Bytes)
  | passed (message : UdpMessage)
  | decided (call : Nat) (result : Except ExchangeError Bytes)
  | left (call : Nat)
  | cleared

def maxDatagramFrameSize : Nat := 1200

def udpReplyQueue : Nat := 32

/-- The message as it is sent, before it is cut. -/
def Exchange.message (call : Exchange) : UdpMessage where
  sessionId := call.sessionId
  packetId := 0
  fragmentId := 0
  fragmentCount := 1
  address := call.address
  payload := call.payload

def Exchange.isOpen (call : Exchange) : Bool :=
  match call.phase with
  | .finished => false
  | _ => true

def LoopPhase.holds (i : Nat) : LoopPhase → Bool
  | .passing j _ => j = i
  | _ => false

def LoopPhase.after : List UdpMessage → LoopPhase
  | [] => .reading
  | message :: _ => .found message

/-- `fetch_add` until the number is not zero, with the number that comes next. -/
def nextSessionId (nextId : UInt32) : UInt32 × UInt32 :=
  if nextId = 0 then (1, 2) else (nextId, nextId + 1)

namespace UdpSessionManager

def new : UdpSessionManager := ⟨1,fun _ => none,[],.default,.reading⟩

def setExchange (s : UdpSessionManager) (i : Nat) (call : Exchange) : UdpSessionManager :=
  { s with exchanges := s.exchanges.set i call }

def setSession (s : UdpSessionManager) (id : UInt32) (call : Option Nat) : UdpSessionManager :=
  { s with sessions := Function.update s.sessions id call }

/-- No sender of the channel is left. -/
def senderGone (s : UdpSessionManager) (i : Nat) (call : Exchange) : Bool :=
  s.sessions call.sessionId ≠ some i && !s.loop.holds i

def starts (s : UdpSessionManager) (address : String) (payload : Bytes) : UdpSessionManager :=
  let id := nextSessionId s.nextId
  { s with
    nextId := id.2
    exchanges := s.exchanges ++ [⟨id.1,address,payload,.registering,[]⟩] }

/-- The call has its result, and only its session is left to be removed. -/
def decides (s : UdpSessionManager) (i : Nat) (call : Exchange)
    (result : Except ExchangeError Bytes) : UdpSessionManager × List UdpOutput :=
  (s.setExchange i { call with phase := .leaving }, [.decided i result])

/-- The call goes on to where it next waits. -/
def runs (s : UdpSessionManager) (i : Nat) (call : Exchange) (turn : ExchangeTurn) :
    UdpSessionManager × List UdpOutput :=
  match call.phase with
  | .registering =>
    let maxSize := min (turn.maxDatagramSize.getD maxDatagramFrameSize) maxDatagramFrameSize
    let fragments := fragmentMessage turn.packetId call.message maxSize
    ((s.setSession call.sessionId (some i)).setExchange i { call with phase := .sending fragments },
      [.registered i])
  | .sending [] => (s.setExchange i { call with phase := .receiving }, [])
  | .sending (message :: rest) =>
    if turn.sent then
      (s.setExchange i { call with phase := .sending rest }, [.sent i message.encode])
    else s.decides i call (.error .quicDatagramSend)
  | .receiving =>
    match call.queue with
    | reply :: rest => s.decides i { call with queue := rest } (.ok reply.payload)
    | [] =>
      if s.senderGone i call then s.decides i call (.error .udpSessionClosed)
      else if turn.expired then s.decides i call (.error .udpTimeout)
      else (s, [])
  | .leaving =>
    ((s.setSession call.sessionId none).setExchange i { call with phase := .finished }, [.left i])
  | .finished => (s, [])

/-- `tx.send`: a call that is gone takes nothing, and a full queue keeps the loop waiting. -/
def pushes (s : UdpSessionManager) (i : Nat) (call : Exchange) (message : UdpMessage) :
    UdpSessionManager :=
  if !call.isOpen then { s with loop := .reading }
  else if call.queue.length < udpReplyQueue then
    { s.setExchange i { call with queue := call.queue ++ [message] } with loop := .reading }
  else s

/-- The loop goes on to where it next waits. -/
def passes (s : UdpSessionManager) : UdpSessionManager × List UdpOutput :=
  match s.loop with
  | .found message =>
    ({ s with loop := (s.sessions message.sessionId).elim .reading (.passing · message) },
      [.passed message])
  | .passing i message =>
    (s.exchanges[i]?.elim { s with loop := .reading } (s.pushes i · message), [])
  | .clearing => ({ s with sessions := fun _ => none, loop := .ended }, [.cleared])
  | .reading | .ended => (s, [])

def reads (s : UdpSessionManager) (datagram : Bytes) : UdpSessionManager :=
  let r := receive s.defraggers datagram
  { s with defraggers := r.1, loop := .after r.2 }

def step (s : UdpSessionManager) : UdpEvent → UdpSessionManager × List UdpOutput
  | .exchange address payload => (s.starts address payload, [])
  | .run i turn =>
    match s.exchanges[i]? with
    | some call => s.runs i call turn
    | none => (s, [])
  | .cancel i =>
    match s.exchanges[i]? with
    | some call => (s.setExchange i { call with phase := .finished }, [])
    | none => (s, [])
  | .datagram bytes =>
    match s.loop with
    | .reading => (s.reads bytes, [])
    | _ => (s, [])
  | .lost =>
    match s.loop with
    | .reading => ({ s with loop := .clearing }, [])
    | _ => (s, [])
  | .pass => s.passes

end UdpSessionManager

/-! ## What the log says -/

/-- The call that an output is of. -/
def UdpOutput.call : UdpOutput → Option Nat
  | .registered i | .sent i _ | .decided i _ | .left i => some i
  | .passed _ | .cleared => none

/-- The number of a call's session, as long as the numbers have not come round. -/
def sessionOf (i : Nat) : UInt32 := UInt32.ofNat (i + 1)

def UdpOutput.isRegistered (i : Nat) : UdpOutput → Bool
  | .registered j => j = i
  | _ => false

def UdpOutput.passedTo (id : UInt32) : UdpOutput → Option UdpMessage
  | .passed message => if message.sessionId = id then some message else none
  | _ => none

def UdpOutput.sentBy (i : Nat) : UdpOutput → Option Bytes
  | .sent j datagram => if j = i then some datagram else none
  | _ => none

/-- The messages of the call's session that were passed on since it was entered, in order. -/
def passedSince (i : Nat) (log : List UdpOutput) : List UdpMessage :=
  (log.dropWhile (!·.isRegistered i)).filterMap (·.passedTo (sessionOf i))

/-- The datagrams of the call, in order. -/
def sentBy (i : Nat) (log : List UdpOutput) : List Bytes := log.filterMap (·.sentBy i)

/-- The call has sent the fragments of its message, in order, all but `rest`. -/
def Asked (log : List UdpOutput) (i : Nat) (call : Exchange) (rest : List UdpMessage) : Prop :=
  ∃ packetId maxSize, maxSize ≤ maxDatagramFrameSize ∧
    sentBy i log ++ rest.map UdpMessage.encode =
      (fragmentMessage packetId call.message maxSize).map UdpMessage.encode

/-- What the result of a call says about what came before: a reply is the first message of its
session, for a time that is over at most one message is on its way, and the session is closed only
with all the others. -/
def Answers (before : List UdpOutput) (i : Nat) (call : Exchange) : Except ExchangeError Bytes → Prop
  | .ok payload => Asked before i call [] ∧
      ∃ reply, (passedSince i before).head? = some reply ∧ payload = reply.payload
  | .error .udpTimeout => Asked before i call [] ∧ (passedSince i before).length ≤ 1
  | .error .udpSessionClosed => Asked before i call [] ∧ passedSince i before = [] ∧
      .cleared ∈ before
  | .error .quicDatagramSend => ∃ message rest, Asked before i call (message :: rest)

/-! ## Logs that grow -/

/-- Nothing was put out for the call. -/
def Silent (log : List UdpOutput) (i : Nat) : Prop := ∀ o ∈ log, o.call ≠ some i

variable {i j : Nat} {log : List UdpOutput} {out : Option UdpOutput}

/-- Once the call has entered its session, what is put out is read on. -/
theorem passedSince_append (h : .registered i ∈ log) (outs : List UdpOutput) :
    passedSince i (log ++ outs) =
      passedSince i log ++ outs.filterMap (·.passedTo (sessionOf i)) := by
  have hsome : (log.dropWhile (!·.isRegistered i)).isEmpty = false := by
    rw [List.isEmpty_eq_false_iff, Ne, List.dropWhile_eq_nil_iff]
    intro hall
    have hnot := hall _ h
    rw [UdpOutput.isRegistered, decide_eq_true rfl] at hnot
    exact Bool.false_ne_true hnot
  rw [passedSince, List.dropWhile_append, hsome, if_neg Bool.false_ne_true,
    List.filterMap_append, passedSince]

theorem Silent.passedSince (h : Silent log i) : passedSince i (log ++ [.registered i]) = [] := by
  have hnone : ∀ o ∈ log, (!o.isRegistered i) = true := fun o ho => by
    cases o with
    | registered k =>
      rw [UdpOutput.isRegistered, decide_eq_false fun hk => h _ ho (by rw [hk]; rfl)]
      rfl
    | _ => rfl
  rw [Hysteria2.passedSince, List.dropWhile_append_of_pos hnone, List.dropWhile_cons_of_neg]
  · rfl
  · rw [UdpOutput.isRegistered, decide_eq_true rfl]
    exact Bool.false_ne_true

theorem sentBy_append (outs : List UdpOutput) : sentBy i (log ++ outs) = sentBy i log ++ sentBy i outs :=
  List.filterMap_append

theorem Silent.sentBy (h : Silent log i) : sentBy i log = [] := by
  refine List.filterMap_eq_nil_iff.mpr fun o ho => ?_
  cases o with
  | sent k datagram => exact if_neg fun hk => h _ ho (by rw [hk]; rfl)
  | _ => rfl

/-- An output of one call is no message and says nothing of the others. -/
theorem sentBy_other {o : UdpOutput} (h : o.call = some i) (hne : i ≠ j) : o.sentBy j = none := by
  cases o with
  | sent k datagram =>
    cases h
    exact if_neg hne
  | _ => rfl

theorem passedTo_own {o : UdpOutput} (h : o.call = some i) (id : UInt32) : o.passedTo id = none := by
  cases o with
  | passed message => cases h
  | _ => rfl

theorem Asked.append {call : Exchange} {rest : List UdpMessage} (h : Asked log i call rest)
    (hout : ∀ o ∈ out, o.sentBy i = none) : Asked (log ++ out.toList) i call rest := by
  obtain ⟨packetId,maxSize,hle,hsent⟩ := h
  refine ⟨packetId,maxSize,hle,?_⟩
  cases out with
  | none => rwa [Option.toList_none, List.append_nil]
  | some o =>
    have hnone : sentBy i [o] = [] := List.filterMap_cons_none (hout o rfl)
    rw [Option.toList_some, sentBy_append, hnone, List.append_nil, hsent]

/-- Only what the call is to send is read of it. -/
theorem Asked.congr {call call' : Exchange} {rest : List UdpMessage} (h : Asked log i call rest)
    (hmessage : call'.message = call.message) : Asked log i call' rest := by
  rw [Asked, hmessage]
  exact h

theorem Answers.congr {call call' : Exchange} {r : Except ExchangeError Bytes}
    (h : Answers log i call r) (hmessage : call'.message = call.message) : Answers log i call' r := by
  cases r with
  | ok payload => exact ⟨h.1.congr hmessage,h.2⟩
  | error e =>
    cases e with
    | quicDatagramSend =>
      obtain ⟨message,rest,hasked⟩ := h
      exact ⟨message,rest,hasked.congr hmessage⟩
    | udpTimeout | udpSessionClosed => exact ⟨h.1.congr hmessage,h.2⟩

theorem split_concat {o o' : UdpOutput} {before after : List UdpOutput}
    (h : log ++ [o] = before ++ o' :: after) :
    (before = log ∧ o' = o) ∨ ∃ rest, log = before ++ o' :: rest := by
  rcases List.eq_nil_or_concat after with rfl | ⟨rest,last,rfl⟩
  · obtain ⟨hlog,ho⟩ := List.append_inj' h rfl
    exact .inl ⟨hlog.symm,(List.singleton_inj.mp ho).symm⟩
  · rw [List.concat_eq_append, ← List.cons_append, ← List.append_assoc] at h
    exact .inr ⟨rest,(List.append_inj' h rfl).1⟩

theorem sessionOf_inj (hi : i + 1 < 2 ^ 32) (hj : j + 1 < 2 ^ 32) (h : sessionOf i = sessionOf j) :
    i = j := by
  have hnat := congrArg UInt32.toNat h
  rw [sessionOf, sessionOf, UInt32.toNat_ofNat_of_lt' hi, UInt32.toNat_ofNat_of_lt' hj] at hnat
  omega

/-! ## What holds of the calls -/

/-- The message that the loop holds for the call. -/
def LoopPhase.pending (i : Nat) : LoopPhase → List UdpMessage
  | .passing j message => if j = i then [message] else []
  | _ => []

/-- A call between entering its session and its result. -/
structure Waiting (sessions : UInt32 → Option Nat) (loop : LoopPhase) (log : List UdpOutput) (i : Nat)
    (call : Exchange) (rest : List UdpMessage) : Prop where
  registered : .registered i ∈ log
  kept : loop ≠ .ended → sessions call.sessionId = some i
  queued : call.queue ++ loop.pending i = passedSince i log
  asked : Asked log i call rest
  undecided : ∀ r, .decided i r ∉ log
  unleft : .left i ∉ log

def SoundAt (sessions : UInt32 → Option Nat) (loop : LoopPhase) (log : List UdpOutput) (i : Nat)
    (call : Exchange) : ExchangePhase → Prop
  | .registering => call.queue = [] ∧ Silent log i
  | .sending rest => Waiting sessions loop log i call rest
  | .receiving => Waiting sessions loop log i call []
  | .leaving => (loop ≠ .ended → sessions call.sessionId = some i) ∧ .left i ∉ log
  | .finished => .left i ∈ log → sessions call.sessionId = none

structure Inv (s : UdpSessionManager) (log : List UdpOutput) : Prop where
  few : s.exchanges.length < 2 ^ 32
  next : s.nextId = UInt32.ofNat (s.exchanges.length + 1)
  ids : ∀ (i : Nat) (call : Exchange), s.exchanges[i]? = some call → call.sessionId = sessionOf i
  calls : ∀ (i : Nat) (call : Exchange), s.exchanges[i]? = some call →
    SoundAt s.sessions s.loop log i call call.phase
  entries : ∀ id i, s.sessions id = some i → id = sessionOf i ∧ .registered i ∈ log
  outputs : ∀ o ∈ log, ∀ i, o.call = some i →
    ∃ call, s.exchanges[i]? = some call ∧ call.phase ≠ .registering
  passing : ∀ i message, s.loop = .passing i message →
    message.sessionId = sessionOf i ∧ .registered i ∈ log
  ended : s.loop = .ended → .cleared ∈ log
  answers : ∀ before i r after, log = before ++ .decided i r :: after →
    (∃ call, s.exchanges[i]? = some call ∧ Answers before i call r) ∧ ∀ r', .decided i r' ∉ before

section
variable {sessions sessions' : UInt32 → Option Nat} {loop loop' : LoopPhase} {call : Exchange}
  {rest : List UdpMessage}

theorem Waiting.frame (h : Waiting sessions loop log j call rest)
    (hout : ∀ o ∈ out, o.call = some i) (hne : i ≠ j)
    (hsession : sessions' call.sessionId = sessions call.sessionId) :
    Waiting sessions' loop (log ++ out.toList) j call rest where
  registered := List.mem_append_left _ h.registered
  kept hended := hsession.trans (h.kept hended)
  queued := by
    have hnone : out.toList.filterMap (·.passedTo (sessionOf j)) = [] :=
      List.filterMap_eq_nil_iff.mpr fun o ho => passedTo_own (hout o (Option.mem_toList.mp ho)) _
    rw [passedSince_append h.registered, hnone, List.append_nil, h.queued]
  asked := h.asked.append fun o ho => sentBy_other (hout o ho) hne
  undecided r hmem := (List.mem_append.mp hmem).elim (h.undecided r) fun hr =>
    hne (Option.some_inj.mp (hout _ (Option.mem_toList.mp hr)).symm)
  unleft hmem := (List.mem_append.mp hmem).elim h.unleft fun hr =>
    hne (Option.some_inj.mp (hout _ (Option.mem_toList.mp hr)).symm)

/-- What one call does changes nothing for another. -/
theorem SoundAt.frame {phase : ExchangePhase} (h : SoundAt sessions loop log j call phase)
    (hout : ∀ o ∈ out, o.call = some i) (hne : i ≠ j)
    (hsession : sessions' call.sessionId = sessions call.sessionId) :
    SoundAt sessions' loop (log ++ out.toList) j call phase := by
  have hleft : .left j ∈ log ++ out.toList → .left j ∈ log := fun hmem =>
    (List.mem_append.mp hmem).resolve_right fun hr =>
      hne (Option.some_inj.mp (hout _ (Option.mem_toList.mp hr)).symm)
  cases phase with
  | registering =>
    refine ⟨h.1,fun o ho => (List.mem_append.mp ho).elim (h.2 o) fun hr hj => ?_⟩
    rw [hout o (Option.mem_toList.mp hr)] at hj
    exact hne (Option.some_inj.mp hj)
  | sending rest => exact Waiting.frame h hout hne hsession
  | receiving => exact Waiting.frame h hout hne hsession
  | leaving => exact ⟨fun hended => hsession.trans (h.1 hended),mt hleft h.2⟩
  | finished => exact fun hmem => hsession.trans (h (hleft hmem))

end

theorem getElem?_set_cases {calls : List Exchange} {call call' : Exchange} {k : Nat}
    (h : (calls.set i call')[k]? = some call) : (k = i ∧ call = call') ∨ (k ≠ i ∧ calls[k]? = some call) := by
  rw [List.getElem?_set] at h
  split_ifs at h with hk hlt
  · cases h
    exact .inl ⟨hk.symm,rfl⟩
  · exact .inr ⟨Ne.symm hk,h⟩

theorem getElem?_set_own {calls : List Exchange} {call : Exchange} (h : calls[i]? = some call)
    (call' : Exchange) : (calls.set i call')[i]? = some call' :=
  List.getElem?_set_self (List.getElem?_eq_some_iff.mp h).1

variable {s : UdpSessionManager} {call : Exchange}

theorem Inv.lt (h : Inv s log) (hcall : s.exchanges[i]? = some call) : i + 1 < 2 ^ 32 :=
  Nat.lt_of_le_of_lt (List.getElem?_eq_some_iff.mp hcall).1 h.few

/-- Calls have sessions of their own. -/
theorem Inv.own (h : Inv s log) {call' : Exchange} (hcall : s.exchanges[i]? = some call)
    (hcall' : s.exchanges[j]? = some call') (hid : call.sessionId = call'.sessionId) : i = j := by
  rw [h.ids i call hcall, h.ids j call' hcall'] at hid
  exact sessionOf_inj (h.lt hcall) (h.lt hcall') hid

theorem Inv.entered (h : Inv s log) (hmem : .registered i ∈ log) :
    ∃ call, s.exchanges[i]? = some call ∧ call.phase ≠ .registering := h.outputs _ hmem i rfl

theorem Inv.entry (h : Inv s log) (hcall : s.exchanges[i]? = some call)
    (hentry : s.sessions call.sessionId = some j) : j = i ∧ .registered i ∈ log := by
  obtain ⟨hid,hmem⟩ := h.entries _ _ hentry
  obtain ⟨call',hcall',_⟩ := h.entered hmem
  have hji : j = i := h.own hcall' hcall ((h.ids j call' hcall').trans hid.symm)
  subst hji
  exact ⟨rfl,hmem⟩

/-- The call's turn: it may enter or leave its own session, and what is put out is its own. -/
theorem Inv.acts (h : Inv s log) (hcall : s.exchanges[i]? = some call) {call' : Exchange}
    {sessions' : UInt32 → Option Nat} (hmessage : call'.message = call.message)
    (hphase : call'.phase ≠ .registering) (hout : ∀ o ∈ out, o.call = some i)
    (hsessions : ∀ id, id ≠ call.sessionId → sessions' id = s.sessions id)
    (hentry : ∀ k, sessions' call.sessionId = some k → k = i ∧ .registered i ∈ log ++ out.toList)
    (hsound : SoundAt sessions' s.loop (log ++ out.toList) i call' call'.phase)
    (hanswers : ∀ r, out = some (.decided i r) → Answers log i call r ∧ ∀ r', .decided i r' ∉ log) :
    Inv { s with sessions := sessions', exchanges := s.exchanges.set i call' }
      (log ++ out.toList) := by
  have hid : call'.sessionId = call.sessionId := congrArg UdpMessage.sessionId hmessage
  have hkept : ∀ {k : Nat} {c : Exchange}, s.exchanges[k]? = some c → c.phase ≠ .registering →
      ∃ c', (s.exchanges.set i call')[k]? = some c' ∧ c'.phase ≠ .registering := fun {k c} hk hc => by
    by_cases hki : i = k
    · subst hki
      exact ⟨call',getElem?_set_own hcall call',hphase⟩
    · exact ⟨c,by rwa [List.getElem?_set_ne hki],hc⟩
  refine ⟨by rw [List.length_set]; exact h.few,by rw [List.length_set]; exact h.next,
    fun k c hk => ?_,fun k c hk => ?_,fun id k hk => ?_,fun o ho k hk => ?_,fun k message hk => ?_,
    fun hended => List.mem_append_left _ (h.ended hended),fun before k r after heq => ?_⟩
  · rcases getElem?_set_cases hk with ⟨rfl,rfl⟩ | ⟨_,hk⟩
    · exact hid.trans (h.ids _ call hcall)
    · exact h.ids k c hk
  · rcases getElem?_set_cases hk with ⟨rfl,rfl⟩ | ⟨hne,hk⟩
    · exact hsound
    · exact (h.calls k c hk).frame hout (Ne.symm hne) (hsessions _ fun heq => hne (h.own hk hcall heq))
  · by_cases heq : id = call.sessionId
    · subst heq
      obtain ⟨rfl,hmem⟩ := hentry k hk
      exact ⟨h.ids _ call hcall,hmem⟩
    · obtain ⟨hid,hmem⟩ := h.entries id k ((hsessions id heq).symm.trans hk)
      exact ⟨hid,List.mem_append_left _ hmem⟩
  · rcases List.mem_append.mp ho with ho | ho
    · obtain ⟨c,hc,hcphase⟩ := h.outputs o ho k hk
      exact hkept hc hcphase
    · rw [hout o (Option.mem_toList.mp ho)] at hk
      cases hk
      exact ⟨call',getElem?_set_own hcall call',hphase⟩
  · obtain ⟨hid,hmem⟩ := h.passing k message hk
    exact ⟨hid,List.mem_append_left _ hmem⟩
  · have hold : ∀ rest, log = before ++ .decided k r :: rest →
        (∃ c, (s.exchanges.set i call')[k]? = some c ∧ Answers before k c r) ∧
          ∀ r', .decided k r' ∉ before := fun rest hrest => by
      obtain ⟨⟨c,hc,hanswer⟩,honce⟩ := h.answers before k r rest hrest
      refine ⟨?_,honce⟩
      by_cases hki : i = k
      · subst hki
        rw [hcall] at hc
        cases hc
        exact ⟨call',getElem?_set_own hcall call',hanswer.congr hmessage⟩
      · exact ⟨c,by rwa [List.getElem?_set_ne hki],hanswer⟩
    cases out with
    | none => exact hold after (by rwa [Option.toList_none, List.append_nil] at heq)
    | some o =>
      rcases split_concat heq with ⟨rfl,rfl⟩ | ⟨rest,hrest⟩
      · have hki : k = i := Option.some_inj.mp (hout _ rfl)
        subst hki
        obtain ⟨hanswer,honce⟩ := hanswers r rfl
        exact ⟨⟨call',getElem?_set_own hcall call',hanswer.congr hmessage⟩,honce⟩
      · exact hold rest hrest

/-! ## One turn of a call -/

section
variable {rest : List UdpMessage}

theorem Waiting.own (h : Waiting s.sessions s.loop log i call rest) (hout : ∀ o ∈ out, o.call = some i)
    (hdecided : ∀ r, out ≠ some (.decided i r)) (hleft : out ≠ some (.left i)) {call' : Exchange}
    {rest' : List UdpMessage} (hid : call'.sessionId = call.sessionId) (hqueue : call'.queue = call.queue)
    (hasked : Asked (log ++ out.toList) i call' rest') :
    Waiting s.sessions s.loop (log ++ out.toList) i call' rest' where
  registered := List.mem_append_left _ h.registered
  kept hended := by rw [hid, h.kept hended]
  queued := by
    have hnone : out.toList.filterMap (·.passedTo (sessionOf i)) = [] :=
      List.filterMap_eq_nil_iff.mpr fun o ho => passedTo_own (hout o (Option.mem_toList.mp ho)) _
    rw [passedSince_append h.registered, hnone, List.append_nil, hqueue, h.queued]
  asked := hasked
  undecided r hmem := (List.mem_append.mp hmem).elim (h.undecided r) fun hr =>
    hdecided r (Option.mem_toList.mp hr)
  unleft hmem := (List.mem_append.mp hmem).elim h.unleft fun hr => hleft (Option.mem_toList.mp hr)

/-- A call that waits comes to its result. -/
theorem Inv.decides (h : Inv s log) (hcall : s.exchanges[i]? = some call)
    (hwaiting : Waiting s.sessions s.loop log i call rest) {r : Except ExchangeError Bytes}
    (hanswer : Answers log i call r) {call' : Exchange} (hmessage : call'.message = call.message) :
    Inv (s.decides i call' r).1 (log ++ (s.decides i call' r).2) := by
  have hid : call'.sessionId = call.sessionId := congrArg UdpMessage.sessionId hmessage
  have hnot : .left i ∉ log ++ [.decided i r] := fun hmem =>
    (List.mem_append.mp hmem).elim hwaiting.unleft fun hr => by cases List.mem_singleton.mp hr
  refine @Inv.acts i log (some (.decided i r)) s call h hcall { call' with phase := .leaving }
    s.sessions hmessage nofun (fun o ho => by cases ho; rfl) (fun _ _ => rfl)
    (fun k hk => ?_) ⟨fun hended => ?_,hnot⟩ fun r' hr' => ?_
  · obtain ⟨hki,hmem⟩ := h.entry hcall hk
    exact ⟨hki,List.mem_append_left _ hmem⟩
  · exact (congrArg s.sessions hid).trans (hwaiting.kept hended)
  · cases hr'
    exact ⟨hanswer,hwaiting.undecided⟩

theorem SoundAt.cancelled {phase : ExchangePhase} (h : SoundAt s.sessions s.loop log i call phase) :
    SoundAt s.sessions s.loop log i { call with phase := .finished } .finished := by
  cases phase with
  | registering => exact fun hmem => absurd rfl (h.2 _ hmem)
  | sending rest => exact fun hmem => absurd hmem (Waiting.unleft h)
  | receiving => exact fun hmem => absurd hmem (Waiting.unleft h)
  | leaving => exact fun hmem => absurd hmem h.2
  | finished => exact h

theorem Inv.cancels (h : Inv s log) (hcall : s.exchanges[i]? = some call) :
    Inv (s.setExchange i { call with phase := .finished }) log := by
  have hacts := @Inv.acts i log none s call h hcall { call with phase := .finished } s.sessions rfl
    nofun nofun (fun _ _ => rfl)
    (fun k hk => by rw [Option.toList_none, List.append_nil]; exact h.entry hcall hk)
    (by rw [Option.toList_none, List.append_nil]; exact (h.calls i call hcall).cancelled) nofun
  rwa [Option.toList_none, List.append_nil] at hacts

theorem Inv.registers (h : Inv s log) (hcall : s.exchanges[i]? = some call)
    (hqueue : call.queue = []) (hsilent : Silent log i) {packetId : UInt16} {maxSize : Nat}
    (hle : maxSize ≤ maxDatagramFrameSize) :
    Inv ((s.setSession call.sessionId (some i)).setExchange i
      { call with phase := .sending (fragmentMessage packetId call.message maxSize) })
      (log ++ [.registered i]) := by
  have hpending : s.loop.pending i = [] := by
    cases hloop : s.loop with
    | passing k message =>
      refine if_neg fun hk => ?_
      subst hk
      exact hsilent _ (h.passing k message hloop).2 rfl
    | _ => rfl
  have hother : ∀ o ∈ log ++ [.registered i], o.call = some i → o = .registered i := fun o ho hi =>
    (List.mem_append.mp ho).elim (fun hlog => absurd hi (hsilent o hlog)) List.mem_singleton.mp
  refine @Inv.acts i log (some (.registered i)) s call h hcall _ _ rfl nofun
    (fun o ho => by cases ho; rfl) (fun id hid => Function.update_of_ne hid ..)
    (fun k hk => ?_) ⟨?_,fun _ => Function.update_self ..,?_,?_,fun r hr => ?_,fun hr => ?_⟩ nofun
  · have hk : Function.update s.sessions call.sessionId (some i) call.sessionId = some k := hk
    rw [Function.update_self] at hk
    cases hk
    exact ⟨rfl,List.mem_append_right _ (List.mem_singleton.mpr rfl)⟩
  · exact List.mem_append_right _ (List.mem_singleton.mpr rfl)
  · exact (congrArg₂ (· ++ ·) hqueue hpending).trans hsilent.passedSince.symm
  · refine ⟨packetId,maxSize,hle,?_⟩
    rw [Option.toList_some, sentBy_append, hsilent.sentBy]
    rfl
  · cases hother _ hr rfl
  · cases hother _ hr rfl

theorem Inv.leaves (h : Inv s log) (hcall : s.exchanges[i]? = some call) :
    Inv ((s.setSession call.sessionId none).setExchange i { call with phase := .finished })
      (log ++ [.left i]) := by
  refine @Inv.acts i log (some (.left i)) s call h hcall { call with phase := .finished } _ rfl nofun
    (fun o ho => by cases ho; rfl) (fun id hid => Function.update_of_ne hid ..) (fun k hk => ?_)
    (fun _ => Function.update_self ..) nofun
  have hk : Function.update s.sessions call.sessionId none call.sessionId = some k := hk
  rw [Function.update_self] at hk
  cases hk

/-- A call that waits goes on waiting. -/
theorem Inv.waits (h : Inv s log) (hcall : s.exchanges[i]? = some call)
    (hout : ∀ o ∈ out, o.call = some i) (hdecided : ∀ r, out ≠ some (.decided i r))
    {phase : ExchangePhase} (hphase : phase ≠ .registering)
    (hsound : SoundAt s.sessions s.loop (log ++ out.toList) i { call with phase := phase } phase) :
    Inv (s.setExchange i { call with phase := phase }) (log ++ out.toList) := by
  refine @Inv.acts i log out s call h hcall { call with phase := phase } s.sessions rfl hphase hout
    (fun _ _ => rfl) (fun k hk => ?_) hsound fun r hr => absurd hr (hdecided r)
  obtain ⟨hki,hmem⟩ := h.entry hcall hk
  exact ⟨hki,List.mem_append_left _ hmem⟩

/-- A call whose channel is closed was cut off with all the others. -/
theorem Inv.closed (h : Inv s log) (hwaiting : Waiting s.sessions s.loop log i call rest)
    (hqueue : call.queue = []) (hgone : s.senderGone i call = true) :
    passedSince i log = [] ∧ .cleared ∈ log := by
  rw [UdpSessionManager.senderGone, Bool.and_eq_true, decide_eq_true_eq] at hgone
  have hended : s.loop = .ended := by
    by_contra hnot
    exact hgone.1 (hwaiting.kept hnot)
  refine ⟨?_,h.ended hended⟩
  rw [← hwaiting.queued, hqueue, hended]
  rfl

theorem Inv.runs (h : Inv s log) (hcall : s.exchanges[i]? = some call) (turn : ExchangeTurn) :
    Inv (s.runs i call turn).1 (log ++ (s.runs i call turn).2) := by
  have hsound := h.calls i call hcall
  rw [UdpSessionManager.runs]
  cases hphase : call.phase with
  | registering =>
    rw [hphase] at hsound
    exact h.registers hcall hsound.1 hsound.2 (Nat.min_le_right ..)
  | sending rest =>
    rw [hphase] at hsound
    have hwaiting : Waiting s.sessions s.loop log i call rest := hsound
    cases rest with
    | nil =>
      exact @Inv.waits i log none s call h hcall nofun nofun .receiving nofun
        (@Waiting.own i log none s call _ hwaiting nofun nofun nofun { call with phase := .receiving } []
          rfl rfl (@Asked.append i log none _ [] hwaiting.asked nofun))
    | cons message rest =>
      dsimp only
      cases turn.sent with
      | false =>
        exact h.decides (r := .error .quicDatagramSend) hcall hwaiting ⟨message,rest,hwaiting.asked⟩ rfl
      | true =>
        refine @Inv.waits i log (some (.sent i message.encode)) s call h hcall
          (fun o ho => by cases ho; rfl) nofun (.sending rest) nofun
          (@Waiting.own i log (some (.sent i message.encode)) s call _ hwaiting
            (fun o ho => by cases ho; rfl) nofun nofun { call with phase := .sending rest } rest rfl rfl ?_)
        obtain ⟨packetId,maxSize,hle,hsent⟩ := hwaiting.asked
        have hown : sentBy i [.sent i message.encode] = [message.encode] :=
          List.filterMap_cons_some (if_pos rfl)
        refine ⟨packetId,maxSize,hle,?_⟩
        rw [Option.toList_some, sentBy_append, hown, List.append_assoc]
        exact hsent
  | receiving =>
    rw [hphase] at hsound
    have hwaiting : Waiting s.sessions s.loop log i call [] := hsound
    dsimp only
    cases hqueue : call.queue with
    | cons reply rest =>
      refine h.decides (r := .ok reply.payload) hcall hwaiting ⟨hwaiting.asked,reply,?_,rfl⟩ rfl
      rw [← hwaiting.queued, hqueue]
      rfl
    | nil =>
      dsimp only
      split_ifs with hgone hexpired
      · exact h.decides (r := .error .udpSessionClosed) hcall hwaiting
          ⟨hwaiting.asked,h.closed hwaiting hqueue hgone⟩ rfl
      · refine h.decides (r := .error .udpTimeout) hcall hwaiting ⟨hwaiting.asked,?_⟩ rfl
        rw [← hwaiting.queued, hqueue, List.nil_append]
        cases s.loop with
        | passing k message =>
          rw [LoopPhase.pending]
          split_ifs
          · exact Nat.le_refl _
          · exact Nat.zero_le _
        | _ => exact Nat.zero_le _
      · rwa [List.append_nil]
  | leaving => exact h.leaves hcall
  | finished => rwa [List.append_nil]

end

/-! ## A new call -/

theorem Inv.starts (h : Inv s log) (hfew : s.exchanges.length + 1 < 2 ^ 32) (address : String)
    (payload : Bytes) : Inv (s.starts address payload) log := by
  have hnext : nextSessionId s.nextId =
      (sessionOf s.exchanges.length, UInt32.ofNat (s.exchanges.length + 1 + 1)) := by
    have hzero : s.nextId ≠ 0 := fun heq => by
      have hnat := congrArg UInt32.toNat (h.next.symm.trans heq)
      rw [UInt32.toNat_ofNat_of_lt' hfew] at hnat
      cases hnat
    rw [nextSessionId, if_neg hzero, h.next]
    exact Prod.ext rfl (UInt32.ofNat_add _ 1).symm
  have hsilent : Silent log s.exchanges.length := fun o ho hi => by
    obtain ⟨call,hcall,_⟩ := h.outputs o ho _ hi
    exact Nat.lt_irrefl _ (List.getElem?_eq_some_iff.mp hcall).1
  rw [UdpSessionManager.starts, hnext]
  have hcases : ∀ {k : Nat} {c : Exchange}, (s.exchanges ++ [⟨sessionOf s.exchanges.length,address,
      payload,.registering,[]⟩])[k]? = some c → s.exchanges[k]? = some c ∨
        k = s.exchanges.length ∧ c = ⟨sessionOf s.exchanges.length,address,payload,.registering,[]⟩ :=
    fun {k c} hk => by
      rcases Nat.lt_or_ge k s.exchanges.length with hlt | hge
      · rw [List.getElem?_append_left hlt] at hk
        exact .inl hk
      · rw [List.getElem?_append_right hge] at hk
        obtain ⟨hlt,hc⟩ := List.getElem?_eq_some_iff.mp hk
        have hk : k = s.exchanges.length := by
          rw [List.length_singleton] at hlt
          omega
        subst hk
        refine .inr ⟨rfl,?_⟩
        rw [← hc]
        simp
  have hold : ∀ {k : Nat} {c : Exchange}, s.exchanges[k]? = some c →
      (s.exchanges ++ [⟨sessionOf s.exchanges.length,address,payload,.registering,[]⟩])[k]? = some c :=
    fun {k c} hk => by rw [List.getElem?_append_left (List.getElem?_eq_some_iff.mp hk).1, hk]
  refine ⟨by rw [List.length_append]; exact hfew,by rw [List.length_append]; rfl,fun k c hk => ?_,
    fun k c hk => ?_,h.entries,fun o ho k hk => ?_,h.passing,h.ended,fun before k r after heq => ?_⟩
  · rcases hcases hk with hk | ⟨rfl,rfl⟩
    · exact h.ids k c hk
    · rfl
  · rcases hcases hk with hk | ⟨rfl,rfl⟩
    · exact h.calls k c hk
    · exact ⟨rfl,hsilent⟩
  · obtain ⟨c,hc,hphase⟩ := h.outputs o ho k hk
    exact ⟨c,hold hc,hphase⟩
  · obtain ⟨⟨c,hc,hanswer⟩,honce⟩ := h.answers before k r after heq
    exact ⟨⟨c,hold hc,hanswer⟩,honce⟩

/-! ## One turn of the loop -/

/-- The messages of the call, as the loop turns. -/
def Turned (s : UdpSessionManager) (loop' : LoopPhase) (out : Option UdpOutput) (k : Nat)
    (c : Exchange) (queue : List UdpMessage) : Prop :=
  (c.phase = .registering → queue = c.queue) ∧
    (c.phase ≠ .finished → s.sessions c.sessionId = some k → queue ++ loop'.pending k =
      c.queue ++ s.loop.pending k ++ out.toList.filterMap (·.passedTo (sessionOf k)))

theorem Turned.waiting {loop' : LoopPhase} {rest queue : List UdpMessage}
    (h : Turned s loop' out i call queue) (hopen : call.phase ≠ .finished)
    (hlive : s.loop ≠ .ended) (hout : ∀ o ∈ out, o.call = none)
    (hwaiting : Waiting s.sessions s.loop log i call rest) :
    Waiting s.sessions loop' (log ++ out.toList) i { call with queue := queue } rest where
  registered := List.mem_append_left _ hwaiting.registered
  kept _ := hwaiting.kept hlive
  queued := by
    rw [passedSince_append hwaiting.registered, ← hwaiting.queued]
    exact h.2 hopen (hwaiting.kept hlive)
  asked := (hwaiting.asked.append fun o ho => by
    cases o with
    | sent _ _ => cases hout _ ho
    | _ => rfl).congr rfl
  undecided r hmem := (List.mem_append.mp hmem).elim (hwaiting.undecided r) fun hr => by
    cases hout _ (Option.mem_toList.mp hr)
  unleft hmem := (List.mem_append.mp hmem).elim hwaiting.unleft fun hr => by
    cases hout _ (Option.mem_toList.mp hr)

theorem Turned.sound {loop' : LoopPhase} {queue : List UdpMessage}
    (h : Turned s loop' out i call queue) (hlive : s.loop ≠ .ended) (hout : ∀ o ∈ out, o.call = none)
    {phase : ExchangePhase} (hphase : call.phase = phase)
    (hsound : SoundAt s.sessions s.loop log i call phase) :
    SoundAt s.sessions loop' (log ++ out.toList) i { call with queue := queue } phase := by
  have hleft : .left i ∈ log ++ out.toList → .left i ∈ log := fun hmem =>
    (List.mem_append.mp hmem).resolve_right fun hr => by cases hout _ (Option.mem_toList.mp hr)
  cases phase with
  | registering =>
    refine ⟨(h.1 hphase).trans hsound.1,fun o ho => (List.mem_append.mp ho).elim (hsound.2 o) ?_⟩
    intro hr hi
    rw [hout o (Option.mem_toList.mp hr)] at hi
    cases hi
  | sending rest => exact h.waiting (by rw [hphase]; nofun) hlive hout hsound
  | receiving => exact h.waiting (by rw [hphase]; nofun) hlive hout hsound
  | leaving => exact ⟨fun _ => hsound.1 hlive,mt hleft hsound.2⟩
  | finished => exact fun hmem => hsound (hleft hmem)

/-- The loop goes on: the messages that it holds or passes on are those of the sessions. -/
theorem Inv.turns (h : Inv s log) (hlive : s.loop ≠ .ended) {loop' : LoopPhase}
    {exchanges' : List Exchange} (defraggers' : SessionDefraggers)
    (hlen : exchanges'.length = s.exchanges.length) (hout : ∀ o ∈ out, o.call = none)
    (hturned : ∀ k c', exchanges'[k]? = some c' → ∃ c queue, s.exchanges[k]? = some c ∧
      c' = { c with queue := queue } ∧ Turned s loop' out k c queue)
    (hpassing : ∀ k message, loop' = .passing k message →
      message.sessionId = sessionOf k ∧ .registered k ∈ log)
    (hended : loop' ≠ .ended) :
    Inv { s with exchanges := exchanges', defraggers := defraggers', loop := loop' }
      (log ++ out.toList) := by
  have hold : ∀ {k : Nat} {c : Exchange}, s.exchanges[k]? = some c →
      ∃ queue, exchanges'[k]? = some { c with queue := queue } := fun {k c} hk => by
    have hlt : k < exchanges'.length := by rw [hlen]; exact (List.getElem?_eq_some_iff.mp hk).1
    obtain ⟨c',queue,hk',hc',_⟩ := hturned k _ (List.getElem?_eq_getElem hlt)
    rw [hk] at hk'
    cases hk'
    exact ⟨queue,by rw [← hc', List.getElem?_eq_getElem hlt]⟩
  refine ⟨by rw [hlen]; exact h.few,by rw [hlen]; exact h.next,fun k c hk => ?_,fun k c hk => ?_,
    fun id k hk => ?_,fun o ho k hk => ?_,fun k message hk => ?_,fun heq => absurd heq hended,
    fun before k r after heq => ?_⟩
  · obtain ⟨c,queue,hc,rfl,_⟩ := hturned k c hk
    exact h.ids k c hc
  · obtain ⟨c,queue,hc,rfl,hturn⟩ := hturned k c hk
    exact hturn.sound hlive hout rfl (h.calls k c hc)
  · obtain ⟨hid,hmem⟩ := h.entries id k hk
    exact ⟨hid,List.mem_append_left _ hmem⟩
  · rcases List.mem_append.mp ho with ho | ho
    · obtain ⟨c,hc,hphase⟩ := h.outputs o ho k hk
      obtain ⟨queue,hc'⟩ := hold hc
      exact ⟨_,hc',hphase⟩
    · rw [hout o (Option.mem_toList.mp ho)] at hk
      cases hk
  · obtain ⟨hid,hmem⟩ := hpassing k message hk
    exact ⟨hid,List.mem_append_left _ hmem⟩
  · have hbefore : ∃ rest, log = before ++ .decided k r :: rest := by
      cases out with
      | none => exact ⟨after,by rwa [Option.toList_none, List.append_nil] at heq⟩
      | some o =>
        rcases split_concat heq with ⟨_,rfl⟩ | hrest
        · cases hout _ rfl
        · exact hrest
    obtain ⟨rest,hrest⟩ := hbefore
    obtain ⟨⟨c,hc,hanswer⟩,honce⟩ := h.answers before k r rest hrest
    obtain ⟨queue,hc'⟩ := hold hc
    exact ⟨⟨_,hc',hanswer.congr rfl⟩,honce⟩

theorem Turned.same (loop' : LoopPhase) (hpending : s.loop.pending i = loop'.pending i) :
    Turned s loop' none i call call.queue := by
  refine ⟨fun _ => rfl,fun _ _ => ?_⟩
  rw [hpending]
  exact (List.append_nil _).symm

theorem Inv.reads (h : Inv s log) (hloop : s.loop = .reading) (datagram : Bytes) :
    Inv (s.reads datagram) log := by
  have hpending : ∀ k, s.loop.pending k = (LoopPhase.after (receive s.defraggers datagram).2).pending k :=
    fun k => by
      rw [hloop]
      cases (receive s.defraggers datagram).2 <;> rfl
  have hturns := @Inv.turns log none s h (by rw [hloop]; nofun) _ s.exchanges
    (receive s.defraggers datagram).1 rfl nofun
    (fun k c hk => ⟨c,c.queue,hk,rfl,.same _ (hpending k)⟩)
    (by cases (receive s.defraggers datagram).2 <;> nofun)
    (by cases (receive s.defraggers datagram).2 <;> nofun)
  rwa [Option.toList_none, List.append_nil] at hturns

theorem Inv.loses (h : Inv s log) (hloop : s.loop = .reading) : Inv { s with loop := .clearing } log := by
  have hturns := @Inv.turns log none s h (by rw [hloop]; nofun) .clearing s.exchanges s.defraggers rfl
    nofun (fun k c hk => ⟨c,c.queue,hk,rfl,.same _ (by rw [hloop]; rfl)⟩) nofun nofun
  rwa [Option.toList_none, List.append_nil] at hturns

/-- The loop has a message and looks for its session. -/
theorem Inv.finds (h : Inv s log) {message : UdpMessage} (hloop : s.loop = .found message) :
    Inv { s with loop := (s.sessions message.sessionId).elim .reading (.passing · message) }
      (log ++ [.passed message]) := by
  refine @Inv.turns log (some (.passed message)) s h (by rw [hloop]; nofun) _ s.exchanges s.defraggers
    rfl (fun o ho => by cases ho; rfl)
    (fun k c hk => ⟨c,c.queue,hk,rfl,fun _ => rfl,fun _ hsession => ?_⟩) (fun k m hk => ?_) ?_
  · have hpassed : (some (UdpOutput.passed message)).toList.filterMap (·.passedTo (sessionOf k)) =
        if message.sessionId = sessionOf k then [message] else [] := by
      rw [Option.toList_some, List.filterMap_cons, UdpOutput.passedTo]
      split_ifs <;> rfl
    rw [h.ids k c hk] at hsession
    have hpending : s.loop.pending k = [] := by
      rw [hloop]
      rfl
    rw [hpending, hpassed, List.append_nil]
    refine congrArg (c.queue ++ ·) ?_
    by_cases hid : message.sessionId = sessionOf k
    · rw [hid, hsession, if_pos rfl]
      exact if_pos rfl
    · rw [if_neg hid]
      cases hother : s.sessions message.sessionId with
      | none => rfl
      | some j =>
        refine if_neg fun hjk => hid ?_
        rw [(h.entries _ j hother).1, hjk]
  · cases hsession : s.sessions message.sessionId with
    | none =>
      rw [hsession] at hk
      cases hk
    | some j =>
      rw [hsession] at hk
      cases hk
      exact h.entries _ _ hsession
  · cases s.sessions message.sessionId <;> nofun

/-- The message is taken by the call, or the call is gone. -/
theorem Inv.pushes (h : Inv s log) {message : UdpMessage} (hloop : s.loop = .passing i message)
    (hcall : s.exchanges[i]? = some call) : Inv (s.pushes i call message) log := by
  have hlive : s.loop ≠ .ended := by rw [hloop]; nofun
  have hother : ∀ {k : Nat}, k ≠ i → s.loop.pending k = LoopPhase.reading.pending k := fun {k} hk => by
    rw [hloop]
    exact if_neg (Ne.symm hk)
  rw [UdpSessionManager.pushes]
  split_ifs with hopen hroom
  · have hturns := @Inv.turns log none s h hlive .reading s.exchanges s.defraggers rfl nofun
      (fun k c hk => ⟨c,c.queue,hk,rfl,?_⟩) nofun nofun
    · rwa [Option.toList_none, List.append_nil] at hturns
    · by_cases hki : k = i
      · subst hki
        rw [hcall] at hk
        cases hk
        refine ⟨fun _ => rfl,fun hphase _ => absurd ?_ hphase⟩
        rw [Exchange.isOpen, Bool.not_eq_true'] at hopen
        cases hc : call.phase with
        | finished => rfl
        | _ => rw [hc] at hopen; cases hopen
      · exact .same _ (hother hki)
  · have hturns := @Inv.turns log none s h hlive .reading
      (s.exchanges.set i { call with queue := call.queue ++ [message] }) s.defraggers
      (List.length_set ..) nofun (fun k c hk => ?_) nofun nofun
    · rwa [Option.toList_none, List.append_nil] at hturns
    · rcases getElem?_set_cases hk with ⟨rfl,rfl⟩ | ⟨hki,hk⟩
      · obtain ⟨c,hc,hphase⟩ := h.entered (h.passing k message hloop).2
        rw [hcall] at hc
        cases hc
        refine ⟨call,_,hcall,rfl,fun hregistering => absurd hregistering hphase,fun _ _ => ?_⟩
        have hpending : s.loop.pending k = [message] := by
          rw [hloop]
          exact if_pos rfl
        rw [hpending]
        rfl
      · exact ⟨c,c.queue,hk,rfl,.same _ (hother hki)⟩
  · exact h

theorem Inv.clears (h : Inv s log) (hloop : s.loop = .clearing) :
    Inv { s with sessions := fun _ => none, loop := .ended } (log ++ [.cleared]) := by
  have hold : ∀ {o : UdpOutput}, o.call ≠ none → o ∈ log ++ [.cleared] → o ∈ log := fun {o} ho hmem =>
    (List.mem_append.mp hmem).resolve_right fun hr => by
      cases List.mem_singleton.mp hr
      exact ho rfl
  have hwaiting : ∀ {k : Nat} {c : Exchange} {rest : List UdpMessage},
      Waiting s.sessions s.loop log k c rest →
        Waiting (fun _ => none) .ended (log ++ [.cleared]) k c rest := fun {k c rest} hw =>
    { registered := List.mem_append_left _ hw.registered
      kept := fun hended => absurd rfl hended
      queued := by
        rw [passedSince_append hw.registered, ← hw.queued, hloop]
        exact (List.append_nil _).symm
      asked := @Asked.append k log (some .cleared) c rest hw.asked fun o ho => by cases ho; rfl
      undecided := fun r hr => hw.undecided r (hold nofun hr)
      unleft := fun hr => hw.unleft (hold nofun hr) }
  refine ⟨h.few,h.next,h.ids,fun k c hk => ?_,nofun,fun o ho k hk => ?_,nofun,
    fun _ => List.mem_append_right _ (List.mem_singleton.mpr rfl),fun before k r after heq => ?_⟩
  · have hsound := h.calls k c hk
    dsimp only
    cases hphase : c.phase with
    | registering =>
      rw [hphase] at hsound
      exact ⟨hsound.1,fun o ho hi => hsound.2 o (hold (by rw [hi]; nofun) ho) hi⟩
    | sending rest =>
      rw [hphase] at hsound
      exact hwaiting hsound
    | receiving =>
      rw [hphase] at hsound
      exact hwaiting hsound
    | leaving =>
      rw [hphase] at hsound
      exact ⟨fun hended => absurd rfl hended,fun hr => hsound.2 (hold nofun hr)⟩
    | finished => exact fun _ => rfl
  · exact h.outputs o (hold (by rw [hk]; nofun) ho) k hk
  · rcases split_concat heq with ⟨_,hr⟩ | ⟨rest,hrest⟩
    · cases hr
    · exact h.answers before k r rest hrest

theorem Inv.passes (h : Inv s log) : Inv s.passes.1 (log ++ s.passes.2) := by
  rw [UdpSessionManager.passes]
  cases hloop : s.loop with
  | found message => exact h.finds hloop
  | passing i message =>
    obtain ⟨call,hcall,_⟩ := h.entered (h.passing i message hloop).2
    dsimp only
    rw [hcall, List.append_nil]
    exact h.pushes hloop hcall
  | clearing => exact h.clears hloop
  | reading | ended => rwa [List.append_nil]

/-! ## Whole runs -/

def UdpEvent.starts : UdpEvent → Bool
  | .exchange _ _ => true
  | _ => false

theorem Inv.step (h : Inv s log) {event : UdpEvent}
    (hfew : event.starts → s.exchanges.length + 1 < 2 ^ 32) :
    Inv (s.step event).1 (log ++ (s.step event).2) := by
  unfold UdpSessionManager.step
  cases event with
  | exchange address payload =>
    rw [List.append_nil]
    exact h.starts (hfew rfl) address payload
  | run i turn =>
    dsimp only
    cases hcall : s.exchanges[i]? with
    | none => rwa [List.append_nil]
    | some call => exact h.runs hcall turn
  | cancel i =>
    dsimp only
    cases hcall : s.exchanges[i]? with
    | none => rwa [List.append_nil]
    | some call =>
      rw [List.append_nil]
      exact h.cancels hcall
  | datagram bytes =>
    dsimp only
    cases hloop : s.loop with
    | reading =>
      rw [List.append_nil]
      exact h.reads hloop bytes
    | _ => rwa [List.append_nil]
  | lost =>
    dsimp only
    cases hloop : s.loop with
    | reading =>
      rw [List.append_nil]
      exact h.loses hloop
    | _ => rwa [List.append_nil]
  | pass => exact h.passes

/-- A call's turn is nothing to the loop. -/
structure Beside (s s' : UdpSessionManager) (outs : List UdpOutput) : Prop where
  length : s'.exchanges.length = s.exchanges.length
  loop : s'.loop = s.loop
  defraggers : s'.defraggers = s.defraggers
  silent : ∀ message, .passed message ∉ outs

theorem Beside.refl (s : UdpSessionManager) : Beside s s [] := ⟨rfl,rfl,rfl,nofun⟩

theorem Beside.set {o : UdpOutput} (h : o.call = some i) (call : Exchange)
    (sessions : UInt32 → Option Nat) :
    Beside s ({ s with sessions := sessions }.setExchange i call) [o] :=
  ⟨List.length_set ..,rfl,rfl,fun message hmem => by cases List.mem_singleton.mp hmem; cases h⟩

theorem Beside.setSilent (i : Nat) (call : Exchange) : Beside s (s.setExchange i call) [] :=
  ⟨List.length_set ..,rfl,rfl,nofun⟩

theorem runs_beside (s : UdpSessionManager) (i : Nat) (call : Exchange) (turn : ExchangeTurn) :
    Beside s (s.runs i call turn).1 (s.runs i call turn).2 := by
  rw [UdpSessionManager.runs]
  cases call.phase with
  | registering => exact .set rfl ..
  | sending rest =>
    cases rest with
    | nil => exact .setSilent ..
    | cons message rest => cases turn.sent <;> exact .set rfl ..
  | receiving =>
    cases call.queue with
    | cons reply rest => exact .set rfl ..
    | nil =>
      dsimp only
      split_ifs
      · exact .set rfl ..
      · exact .set rfl ..
      · exact .refl s
  | leaving => exact .set rfl ..
  | finished => exact .refl s

theorem length_passes (s : UdpSessionManager) : s.passes.1.exchanges.length = s.exchanges.length := by
  rw [UdpSessionManager.passes]
  cases s.loop with
  | passing i message =>
    dsimp only
    cases s.exchanges[i]? with
    | none => rfl
    | some call =>
      rw [Option.elim_some, UdpSessionManager.pushes]
      split_ifs
      · rfl
      · exact List.length_set ..
      · rfl
  | _ => rfl

theorem length_step (s : UdpSessionManager) (event : UdpEvent) :
    (s.step event).1.exchanges.length = s.exchanges.length + if event.starts then 1 else 0 := by
  unfold UdpSessionManager.step
  cases event with
  | exchange address payload => exact List.length_append
  | run i turn =>
    dsimp only
    cases s.exchanges[i]? with
    | none => rfl
    | some call => exact (runs_beside s i call turn).length
  | cancel i =>
    dsimp only
    cases s.exchanges[i]? with
    | none => rfl
    | some call => exact List.length_set ..
  | datagram bytes => cases s.loop <;> rfl
  | lost => cases s.loop <;> rfl
  | pass => exact length_passes s

theorem meets_few (s : UdpSessionManager) (events : List UdpEvent)
    (h : s.exchanges.length + events.countP UdpEvent.starts < 2 ^ 32) :
    Meets UdpSessionManager.step (fun s event => event.starts → s.exchanges.length + 1 < 2 ^ 32) s events := by
  induction events generalizing s with
  | nil => trivial
  | cons event events ih =>
    rw [List.countP_cons] at h
    refine ⟨fun hstarts => ?_,ih _ ?_⟩
    · rw [if_pos hstarts] at h
      omega
    · rw [length_step]
      omega

theorem Inv.new : Inv .new [] :=
  ⟨by decide,rfl,nofun,nofun,nofun,nofun,nofun,nofun,fun before i r after h => by
    cases before <;> cases h⟩

def UdpEvent.datagram? : UdpEvent → Option Bytes
  | .datagram bytes => some bytes
  | _ => none

/-- What the loop holds and passes on is put together from what came. -/
structure Made (source : UdpMessage → Prop) (s : UdpSessionManager) (log : List UdpOutput) : Prop where
  gathers : ∀ session, Gathers source session (s.defraggers session)
  found : ∀ message, s.loop = .found message → MadeOf source message
  passed : ∀ message, .passed message ∈ log → MadeOf source message

theorem receive_madeOf {source : UdpMessage → Prop} {d : SessionDefraggers}
    (h : ∀ session, Gathers source session (d session)) {datagram : Bytes}
    (hsource : ∀ m, UdpMessage.decode datagram = .ok m → source m) :
    (∀ session, Gathers source session ((receive d datagram).1 session)) ∧
      ∀ output ∈ (receive d datagram).2, MadeOf source output := by
  have hrun : run receive d [datagram] = receive d datagram := Prod.ext rfl (List.append_nil _)
  rw [← hrun, run_receive]
  refine feed_gathers h fun m hm => ?_
  obtain ⟨other,hmem,hdecode⟩ := mem_messagesIn.mp hm
  cases List.mem_singleton.mp hmem
  exact ⟨hsource m hdecode,(UdpMessage.says_of_decode hdecode).1⟩

section
variable {source : UdpMessage → Prop}

theorem Made.beside {s' : UdpSessionManager} {outs : List UdpOutput} (h : Made source s log)
    (hbeside : Beside s s' outs) : Made source s' (log ++ outs) where
  gathers := by rw [hbeside.defraggers]; exact h.gathers
  found message hloop := h.found message (hbeside.loop.symm.trans hloop)
  passed message hmem := (List.mem_append.mp hmem).elim (h.passed message) fun hr =>
    absurd hr (hbeside.silent message)

theorem Made.pushes (h : Made source s log) (i : Nat) (call : Exchange) (message : UdpMessage) :
    Made source (s.pushes i call message) log := by
  rw [UdpSessionManager.pushes]
  split_ifs
  · exact ⟨h.gathers,nofun,h.passed⟩
  · exact ⟨h.gathers,nofun,h.passed⟩
  · exact h

theorem Made.passes (h : Made source s log) : Made source s.passes.1 (log ++ s.passes.2) := by
  rw [UdpSessionManager.passes]
  cases hloop : s.loop with
  | found message =>
    dsimp only
    refine ⟨h.gathers,fun m hm => ?_,fun m hm => (List.mem_append.mp hm).elim (h.passed m) fun hr => ?_⟩
    · dsimp only at hm
      cases hsession : s.sessions message.sessionId <;> rw [hsession] at hm <;> cases hm
    · cases List.mem_singleton.mp hr
      exact h.found message hloop
  | passing i message =>
    dsimp only
    rw [List.append_nil]
    cases s.exchanges[i]? with
    | none => exact ⟨h.gathers,nofun,h.passed⟩
    | some call => exact h.pushes i call message
  | clearing =>
    exact ⟨h.gathers,nofun,fun m hm => (List.mem_append.mp hm).elim (h.passed m) fun hr => by
      cases List.mem_singleton.mp hr⟩
  | reading | ended => rwa [List.append_nil]

theorem Made.step (h : Made source s log) {event : UdpEvent}
    (hsource : ∀ bytes ∈ event.datagram?, ∀ m, UdpMessage.decode bytes = .ok m → source m) :
    Made source (s.step event).1 (log ++ (s.step event).2) := by
  unfold UdpSessionManager.step
  cases event with
  | exchange address payload =>
    rw [List.append_nil]
    exact ⟨h.gathers,h.found,h.passed⟩
  | run i turn =>
    dsimp only
    cases s.exchanges[i]? with
    | none => rwa [List.append_nil]
    | some call => exact h.beside (runs_beside s i call turn)
  | cancel i =>
    dsimp only
    cases s.exchanges[i]? with
    | none => rwa [List.append_nil]
    | some call => exact h.beside (.setSilent ..)
  | datagram bytes =>
    dsimp only
    cases s.loop with
    | reading =>
      obtain ⟨hgathers,hmade⟩ := receive_madeOf h.gathers (hsource bytes rfl)
      rw [List.append_nil]
      refine ⟨hgathers,fun m hm => ?_,h.passed⟩
      dsimp only [UdpSessionManager.reads] at hm
      cases hout : (receive s.defraggers bytes).2 with
      | nil => rw [hout] at hm; cases hm
      | cons message rest =>
        rw [hout] at hm
        cases hm
        exact hmade _ (by rw [hout]; exact List.mem_cons_self)
    | _ => rwa [List.append_nil]
  | lost =>
    dsimp only
    cases s.loop with
    | reading =>
      rw [List.append_nil]
      exact ⟨h.gathers,nofun,h.passed⟩
    | _ => rwa [List.append_nil]
  | pass => exact h.passes

end

/-- Every call has a session of its own, nothing is left of it when the call has left, and what it
is given is what came for it. -/
structure Orderly (source : UdpMessage → Prop) (s : UdpSessionManager) (log : List UdpOutput) :
    Prop where
  ids : ∀ (i : Nat) (call : Exchange), s.exchanges[i]? = some call → call.sessionId = sessionOf i
  entries : ∀ id i, s.sessions id = some i →
    id = sessionOf i ∧ .registered i ∈ log ∧ .left i ∉ log
  passed : ∀ message, .passed message ∈ log → MadeOf source message
  answers : ∀ before i r after, log = before ++ .decided i r :: after →
    (∃ call, s.exchanges[i]? = some call ∧ Answers before i call r) ∧ ∀ r', .decided i r' ∉ before

/-- A call that has left has no session. -/
theorem Inv.left (h : Inv s log) {id : UInt32} (hentry : s.sessions id = some i) : .left i ∉ log := by
  intro hmem
  obtain ⟨call,hcall,_⟩ := h.outputs _ hmem i rfl
  have hid : id = call.sessionId := (h.entries id i hentry).1.trans (h.ids i call hcall).symm
  subst hid
  have hsound := h.calls i call hcall
  cases hphase : call.phase with
  | registering =>
    rw [hphase] at hsound
    exact hsound.2 _ hmem rfl
  | sending rest =>
    rw [hphase] at hsound
    exact Waiting.unleft hsound hmem
  | receiving =>
    rw [hphase] at hsound
    exact Waiting.unleft hsound hmem
  | leaving =>
    rw [hphase] at hsound
    exact hsound.2 hmem
  | finished =>
    rw [hphase] at hsound
    rw [hsound hmem] at hentry
    cases hentry

/-- Whatever calls come and however they, the loop, the datagrams and the end of the connection come
in turn, as long as the numbers of the sessions have not come round. -/
theorem udp_exchanges (events : List UdpEvent) (hfew : events.countP UdpEvent.starts < 2 ^ 32) :
    let r := run UdpSessionManager.step .new events
    Orderly (Said (events.filterMap UdpEvent.datagram?)) r.1 r.2 := by
  intro r
  have hinv : Inv r.1 r.2 := run_invariant Inv (fun _ _ _ h hok => h.step hok) .new events
    (meets_few .new events (by rwa [UdpSessionManager.new, List.length_nil, Nat.zero_add]))
  have hmade : Made (Said (events.filterMap UdpEvent.datagram?)) r.1 r.2 := by
    refine @run_invariant _ _ _ UdpSessionManager.step (fun _ event => event ∈ events)
      (Made (Said (events.filterMap UdpEvent.datagram?))) (fun s log event h hmem => h.step ?_)
      .new [] ⟨fun session => Gathers.default _ session,nofun,nofun⟩ events
      (meets_of_forall (fun _ hmem _ => hmem) _)
    exact fun bytes hbytes m hm => ⟨bytes,List.mem_filterMap.mpr ⟨event,hmem,hbytes⟩,hm⟩
  exact ⟨hinv.ids,fun id i hentry => ⟨(hinv.entries id i hentry).1,(hinv.entries id i hentry).2,
    hinv.left hentry⟩,hmade.passed,hinv.answers⟩

/-- Two calls; the second is given up, and the reply to the first comes before it waits for it. -/
theorem udp_exchanges_short :
    let turn : ExchangeTurn := ⟨5,none,true,false⟩
    let events : List UdpEvent := [.exchange "a:1" [1, 2], .exchange "b:2" [3], .run 1 turn, .run 0 turn,
      .run 0 turn, .datagram (UdpMessage.encode ⟨1,0,0,1,"a:1",[9]⟩), .pass, .pass, .cancel 1,
      .run 0 turn, .run 0 turn, .run 0 turn, .lost, .pass]
    let r := run UdpSessionManager.step .new events
    Orderly (Said (events.filterMap UdpEvent.datagram?)) r.1 r.2 :=
  udp_exchanges _ (by decide)

end AtlasKernel.Hysteria2
