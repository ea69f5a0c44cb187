import AtlasKernel.PacketSession.Demux
import AtlasKernel.Vless.VisionPadding

/-! A packet sent through a VLESS mux worker, among the other calls and the reader, which
share the demultiplexer with it. Source: `adapter/vless.rs`. -/
namespace AtlasKernel.Vless
open AtlasKernel.Lib AtlasKernel.PacketSession

/-- What the other tasks do to the demultiplexer: other calls register and remove their
own waiters, the reader delivers payloads, and whoever closes the worker fails all. -/
inductive MuxOp where
  | register (key : String) (requestId : UInt64)
  | removeById (key : String) (requestId : UInt64)
  | response (key : String) (payload : Bytes)
  | targetless (payload : Bytes)
  | failAll (error : String)
deriving DecidableEq, Repr

/-- The channel of a call goes by its request id. -/
def MuxOp.demux : MuxOp → DemuxOp UInt64
  | .register key requestId => .register key requestId requestId
  | .removeById key requestId => .removeById key requestId
  | .response key payload => .deliver key (.ok payload)
  | .targetless payload => .deliverNext (.ok payload)
  | .failAll error => .failAll error

def MuxOp.closes : MuxOp → Bool
  | .failAll _ => true
  | _ => false

structure VlessMuxWorker where
  writer : VlessMuxWriter
  pending : PacketSessionState UInt64
  nextRequestId : UInt64
  closed : Bool

/-- How a call falls among the others: what they do while it waits for the writer, the
writer it finds, what they do while it writes and the outcome of that, what they do until
it has its response or its timer fires, and from there to the removal of its waiter. -/
structure SendSchedule where
  locking : List MuxOp
  writer : VlessMuxWriter
  writing : List MuxOp
  written : Except String Unit
  awaiting : List MuxOp
  late : List MuxOp

/-- `meanwhile` is what happened to the demultiplexer besides the call's own waiter. -/
structure SendOutcome where
  result : PacketResult
  worker : VlessMuxWorker
  written : Option UplinkWrite
  meanwhile : List (DemuxOp UInt64)

def others (s : PacketSessionState UInt64) (ops : List MuxOp) : DemuxRun UInt64 :=
  s.play (ops.map MuxOp.demux)

def sent (r : DemuxRun UInt64) : List (UInt64 × PacketResult) := r.outcomes.flatMap (·.sent)

/-- What a receiver has got. -/
def received (r : DemuxRun UInt64) (channel : UInt64) : Option PacketResult :=
  ((sent r).find? (·.1 = channel)).map (·.2)

/-- The sender is still in its queue. -/
def waits (s : PacketSessionState UInt64) (key : String) (requestId : UInt64) : Bool :=
  ((s.pending.lookup key).getD []).any (·.requestId = requestId)

namespace VlessMuxWorker

def new (visionUuid : Option Uuid) : VlessMuxWorker := ⟨.new visionUuid, .new, 0, false⟩

def meanwhile (w : VlessMuxWorker) (ops : List MuxOp) : VlessMuxWorker :=
  { w with pending := (others w.pending ops).state, closed := w.closed || ops.any MuxOp.closes }

def close (w : VlessMuxWorker) : VlessMuxWorker :=
  { w with closed := true, pending := (w.pending.failAll "VLESS XUDP worker closed").1 }

/-- Waiting for the response, with the timer. -/
def awaitResponse (w : VlessMuxWorker) (wait : PacketSessionWait UInt64) (ops late : List MuxOp)
    (write : UplinkWrite) : SendOutcome :=
  let w' := w.meanwhile ops
  match received (others w.pending ops) wait.receiver with
  | some result => ⟨result, w', some write, ops.map MuxOp.demux⟩
  | none =>
    if waits w'.pending wait.key wait.requestId then
      let w'' := w'.meanwhile late
      ⟨.error "VLESS XUDP packet response timed out",
        { w'' with pending := w''.pending.removeById wait.key wait.requestId }, some write,
        (ops ++ late).map MuxOp.demux⟩
    else
      ⟨.error "VLESS XUDP worker closed before a response arrived",
        close { w' with pending := w'.pending.removeById wait.key wait.requestId }, some write,
        ops.map MuxOp.demux ++ [.failAll "VLESS XUDP worker closed"]⟩

def sendPacket (w : VlessMuxWorker) (target : TargetAddress) (payload : Bytes)
    (sch : SendSchedule) : SendOutcome :=
  if w.closed then ⟨.error "VLESS mux worker is closed", w, none, []⟩
  else
    let key := packetTargetKey target.host target.port
    let r := w.pending.register key w.nextRequestId w.nextRequestId
    let w := { w with pending := r.1, nextRequestId := w.nextRequestId + 1, writer := sch.writer }
    match encodeXudpPacket target payload sch.writer.firstPacket with
    | .error err =>
      -- the waiter stays behind
      ⟨.error err, w.meanwhile sch.locking, none, sch.locking.map MuxOp.demux⟩
    | .ok frame =>
      let f := { sch.writer with firstPacket := false }.writeFrame frame
      let w := { w with writer := f.2 }
      match sch.written with
      | .error err =>
        let w' := w.meanwhile (sch.locking ++ sch.writing)
        ⟨.error err, close { w' with pending := w'.pending.remove r.2 }, some f.1,
          (sch.locking ++ sch.writing).map MuxOp.demux ++ [.failAll "VLESS XUDP worker closed"]⟩
      | .ok () =>
        w.awaitResponse r.2 (sch.locking ++ sch.writing ++ sch.awaiting) sch.late f.1

end VlessMuxWorker

/-! ## Without the call -/

/-- The worker after the tasks of `history`, and ids that no two calls share. -/
structure InRun (w : VlessMuxWorker) (history : List MuxOp) (sch : SendSchedule) : Prop where
  pending : w.pending = (runDemux (history.map MuxOp.demux)).state
  distinct : (registeredIds ((history ++ sch.locking ++ sch.writing ++ sch.awaiting ++
    sch.late).map MuxOp.demux)).Nodup
  own : ∀ op ∈ history ++ sch.locking ++ sch.writing ++ sch.awaiting ++ sch.late,
    Waiters.names op.demux.spec ≠ some w.nextRequestId

/-- The live waiters of the same run without the call. -/
def liveWithout (history : List MuxOp) (out : SendOutcome) : PacketWaiters UInt64 :=
  (booksOf [] (history.map MuxOp.demux ++ out.meanwhile)).live

/-- The demultiplexer holds what it would hold without the call, and answers every later
sequence of responses like the list of the waiters that are still live. -/
structure LeavesNothing (history : List MuxOp) (out : SendOutcome) : Prop where
  entries : Refines out.worker.pending (liveWithout history out)
  responses : ∀ later : List (DemuxOp UInt64), registeredIds later = [] →
    List.Forall₂ Answers (out.worker.pending.play later).outcomes
      (booksOf (liveWithout history out) later).outcomes

/-! ## The list of the waiters -/

theorem booksOf_append_live (live : PacketWaiters UInt64) (ops more : List (DemuxOp UInt64)) :
    (booksOf live (ops ++ more)).live = (booksOf (booksOf live ops).live more).live := by
  have hlive : (booksOf live ops).live =
      (Waiters.Books.start (booksOf live ops).live :
        Waiters.Books String UInt64 UInt64 PacketResult).live := rfl
  rw [booksOf, List.map_append, Waiters.Books.play_append]
  exact Waiters.Books.play_live hlive _

/-- A channel has got a result exactly when a waiter with that channel was completed. -/
theorem mem_sent_iff {outcomes : List (DemuxOutcome UInt64)}
    {completed : List (List (Waiter String UInt64 UInt64 × PacketResult))}
    (h : List.Forall₂ Answers outcomes completed) (channel : UInt64) (result : PacketResult) :
    (channel, result) ∈ outcomes.flatMap (·.sent) ↔
      ∃ c ∈ completed.flatten, c.1.sender = channel ∧ c.2 = result := by
  induction h with
  | nil => simp
  | cons hanswer _ ih =>
    rw [List.flatMap_cons, List.mem_append, ih, hanswer.sent.mem_iff, List.flatten_cons]
    simp only [List.mem_map, List.mem_append, Prod.mk.injEq, or_and_right, exists_or]

/-- The waiters of the calls go by their ids. -/
theorem booksOf_sender {live : PacketWaiters UInt64} (h : ∀ w ∈ live, w.sender = w.id)
    (ops : List MuxOp) : ∀ w ∈ (booksOf live (ops.map MuxOp.demux)).registered,
      w.sender = w.id := by
  rw [booksOf, Waiters.Books.play_registered]
  intro w hw
  obtain hw | hw := List.mem_append.mp hw
  · exact h w hw
  · simp only [List.mem_flatMap, List.mem_map] at hw
    obtain ⟨_,⟨_,⟨op,_,rfl⟩,rfl⟩,hw⟩ := hw
    cases op <;> simp [MuxOp.demux, DemuxOp.spec, Waiters.registered] at hw
    rw [hw]

/-- Only a failure completes a waiter with an error. -/
theorem completed_payload {live : PacketWaiters UInt64} {op : MuxOp}
    (hop : ∀ error, op ≠ .failAll error) {c : Waiter String UInt64 UInt64 × PacketResult}
    (hc : c ∈ (Waiters.step live op.demux.spec).2) : ∃ payload, c.2 = .ok payload := by
  cases op with
  | register key id => cases hc
  | removeById key id => cases hc
  | response key payload =>
    obtain ⟨w,_,rfl⟩ := Option.map_eq_some_iff.mp (Option.mem_toList.mp hc)
    exact ⟨payload,rfl⟩
  | targetless payload =>
    obtain ⟨w,_,rfl⟩ := Option.map_eq_some_iff.mp (Option.mem_toList.mp hc)
    exact ⟨payload,rfl⟩
  | failAll error => exact absurd rfl (hop error)

/-- A waiter that gets no payload from other tasks leaves no trace in the list. -/
theorem booksOf_without {id : UInt64} {live : PacketWaiters UInt64} {ops : List MuxOp}
    (hnames : ∀ op ∈ ops, Waiters.names op.demux.spec ≠ some id)
    (hdone : ∀ c ∈ (booksOf live (ops.map MuxOp.demux)).outcomes.flatten, c.1.id = id →
      ∃ e, c.2 = .error e) :
    Waiters.without id (booksOf live (ops.map MuxOp.demux)).live =
      (booksOf (Waiters.without id live) (ops.map MuxOp.demux)).live := by
  induction ops using List.reverseRecOn with
  | nil => rfl
  | append_singleton ops op ih =>
    have hnames' := fun o ho => hnames o (List.mem_append_left _ ho)
    have hname := hnames op (List.mem_append_right _ List.mem_cons_self)
    have hsplit : ∀ l, booksOf l ((ops ++ [op]).map MuxOp.demux) =
        (booksOf l (ops.map MuxOp.demux)).enter op.demux.spec := by
      intro l
      simp [booksOf]
    rw [hsplit] at hdone
    rw [hsplit, hsplit]
    simp only [Waiters.Books.enter, List.flatten_append, List.flatten_singleton,
      List.mem_append] at hdone ⊢
    rw [← ih hnames' fun c hc => hdone c (.inl hc)]
    have hlast := fun c hc => hdone c (.inr hc)
    by_cases hfail : ∃ error, op = .failAll error
    · obtain ⟨error,rfl⟩ := hfail
      rfl
    · have hspare : ∀ c ∈ (Waiters.step (booksOf live (ops.map MuxOp.demux)).live op.demux.spec).2,
          c.1.id ≠ id := by
        intro c hc hid
        obtain ⟨e,he⟩ := hlast c hc hid
        obtain ⟨payload,hpayload⟩ := completed_payload (fun error h => hfail ⟨error,h⟩) hc
        rw [he] at hpayload
        cases hpayload
      rw [Waiters.step_without hname hspare]

/-! ## The call among the others -/

/-- The waiters before the call, and the waiter of the call. -/
def liveBefore (history : List MuxOp) : PacketWaiters UInt64 :=
  (booksOf [] (history.map MuxOp.demux)).live

def ownWaiter (w : VlessMuxWorker) (target : TargetAddress) : Waiter String UInt64 UInt64 :=
  ⟨packetTargetKey target.host target.port, w.nextRequestId, w.nextRequestId⟩

/-- The demultiplexer behind the registration. -/
def registered (w : VlessMuxWorker) (target : TargetAddress) : PacketSessionState UInt64 :=
  (w.pending.register (packetTargetKey target.host target.port) w.nextRequestId
    w.nextRequestId).1

section
variable {w : VlessMuxWorker} {history : List MuxOp} {sch : SendSchedule}

def SendSchedule.all (sch : SendSchedule) : List MuxOp :=
  sch.locking ++ sch.writing ++ sch.awaiting ++ sch.late

theorem InRun.own_all (h : InRun w history sch) :
    ∀ op ∈ history ++ sch.all, Waiters.names op.demux.spec ≠ some w.nextRequestId := by
  intro op hop
  apply h.own
  simpa [SendSchedule.all] using hop

theorem registeredIds_own {ops : List MuxOp} {id : UInt64}
    (h : ∀ op ∈ ops, Waiters.names op.demux.spec ≠ some id) :
    id ∉ registeredIds (ops.map MuxOp.demux) := by
  intro hid
  obtain ⟨_,hmem,hop⟩ := List.mem_filterMap.mp hid
  obtain ⟨op,hop',rfl⟩ := List.mem_map.mp hmem
  apply h op hop'
  cases op <;> simp [MuxOp.demux, DemuxOp.registeredId] at hop
  rw [hop]
  rfl

theorem liveBefore_ids (history : List MuxOp) :
    ((liveBefore history).map (·.id)).Sublist (registeredIds (history.map MuxOp.demux)) := by
  have horder := (booksOf_balanced [] (history.map MuxOp.demux)).order.map (·.id)
  rwa [booksOf_registered] at horder

/-- The ids of the waiters before the call, of the call, and of those behind it. -/
theorem InRun.ids (h : InRun w history sch) (target : TargetAddress) {ops : List MuxOp}
    (hops : ops.Sublist sch.all) :
    ((liveBefore history ++ [ownWaiter w target]).map (·.id) ++
      registeredIds (ops.map MuxOp.demux)).Nodup := by
  have hdistinct := h.distinct
  have hown := h.own_all
  have hassoc : history ++ sch.locking ++ sch.writing ++ sch.awaiting ++ sch.late =
      history ++ sch.all := by simp [SendSchedule.all]
  rw [hassoc, List.map_append, registeredIds, List.filterMap_append] at hdistinct
  have hbefore := registeredIds_own fun op ho => hown op (List.mem_append_left _ ho)
  have hbehind := registeredIds_own fun op ho =>
    hown op (List.mem_append_right _ (hops.subset ho))
  have hsub := List.Sublist.append (liveBefore_ids history)
    ((hops.map MuxOp.demux).filterMap DemuxOp.registeredId)
  have hnodup := hdistinct.sublist hsub
  rw [List.map_append, List.append_assoc]
  apply List.nodup_middle.mpr
  refine List.nodup_cons.mpr ⟨?_,hnodup⟩
  intro hmem
  obtain hmem | hmem := List.mem_append.mp hmem
  · exact hbefore ((liveBefore_ids history).subset hmem)
  · exact hbehind hmem

theorem liveBefore_own (h : InRun w history sch) :
    ∀ v ∈ liveBefore history, v.id ≠ w.nextRequestId := by
  intro v hv hid
  have hmem := (liveBefore_ids history).subset (List.mem_map_of_mem hv)
  rw [hid] at hmem
  exact registeredIds_own (fun op ho => h.own_all op (List.mem_append_left _ ho)) hmem

theorem liveBefore_refines (h : InRun w history sch) : Refines w.pending (liveBefore history) := by
  have hdistinct := h.distinct
  simp only [List.map_append, registeredIds, List.filterMap_append] at hdistinct
  have hhistory : (registeredIds (history.map MuxOp.demux)).Nodup := hdistinct.of_append_left.of_append_left.of_append_left.of_append_left
  rw [h.pending]
  exact (play_refines new_refines hhistory).1

/-- What the other tasks do around the call, as the demultiplexer and the list see it. -/
structure Around (w : VlessMuxWorker) (history : List MuxOp) (target : TargetAddress)
    (ops : List MuxOp) : Prop where
  refines : Refines (others (registered w target) ops).state
    (booksOf (liveBefore history ++ [ownWaiter w target]) (ops.map MuxOp.demux)).live
  key : ∀ v ∈ (booksOf (liveBefore history ++ [ownWaiter w target])
    (ops.map MuxOp.demux)).live, v.id = w.nextRequestId →
      v.key = packetTargetKey target.host target.port
  once : ∀ r r', (w.nextRequestId, r) ∈ sent (others (registered w target) ops) →
    (w.nextRequestId, r') ∈ sent (others (registered w target) ops) → r = r'
  gone : ∀ r, (w.nextRequestId, r) ∈ sent (others (registered w target) ops) →
    ∀ v ∈ (booksOf (liveBefore history ++ [ownWaiter w target]) (ops.map MuxOp.demux)).live,
      v.id ≠ w.nextRequestId
  traceless : (∀ payload, (w.nextRequestId, .ok payload) ∉
      sent (others (registered w target) ops)) →
    Waiters.without w.nextRequestId
      (booksOf (liveBefore history ++ [ownWaiter w target]) (ops.map MuxOp.demux)).live =
      (booksOf (liveBefore history) (ops.map MuxOp.demux)).live

/-- What the call is sent is how its own waiter is completed. -/
theorem InRun.sent_iff (h : InRun w history sch) (target : TargetAddress) {ops : List MuxOp}
    (hops : ops.Sublist sch.all) (r : PacketResult) :
    (w.nextRequestId, r) ∈ sent (others (registered w target) ops) ↔
      ∃ c ∈ (booksOf (liveBefore history ++ [ownWaiter w target])
        (ops.map MuxOp.demux)).outcomes.flatten, c.1.id = w.nextRequestId ∧ c.2 = r := by
  have hregister := register_refines (liveBefore_refines h)
    (packetTargetKey target.host target.port) w.nextRequestId w.nextRequestId
  obtain ⟨_,hanswers⟩ := play_refines hregister (h.ids target hops)
  have hbalanced := booksOf_balanced (liveBefore history ++ [ownWaiter w target])
    (ops.map MuxOp.demux)
  have hbefore : ∀ v ∈ liveBefore history ++ [ownWaiter w target], v.sender = v.id := by
    intro v hv
    obtain hv | hv := List.mem_append.mp hv
    · have horder := (booksOf_balanced [] (history.map MuxOp.demux)).order
      exact booksOf_sender (by simp) history v (horder.subset hv)
    · rw [List.mem_singleton.mp hv]
      rfl
  have hcompleted : ∀ c ∈ (booksOf (liveBefore history ++ [ownWaiter w target])
      (ops.map MuxOp.demux)).outcomes.flatten, c.1.sender = c.1.id := by
    intro c hc
    apply booksOf_sender hbefore ops
    exact hbalanced.account.mem_iff.mpr
      (List.mem_append_right _ (List.mem_map_of_mem hc))
  rw [sent, others, registered, mem_sent_iff hanswers]
  refine exists_congr fun c => and_congr_right fun hc => ?_
  rw [hcompleted c hc]

theorem InRun.around (h : InRun w history sch) (target : TargetAddress) {ops : List MuxOp}
    (hops : ops.Sublist sch.all) : Around w history target ops := by
  have hids := h.ids target hops
  have hregister := register_refines (liveBefore_refines h)
    (packetTargetKey target.host target.port) w.nextRequestId w.nextRequestId
  have hrefines := (play_refines hregister hids).1
  have hbalanced := booksOf_balanced (liveBefore history ++ [ownWaiter w target])
    (ops.map MuxOp.demux)
  have hsent := h.sent_iff target hops
  rw [← booksOf_registered (liveBefore history ++ [ownWaiter w target]) (ops.map MuxOp.demux)] at hids
  have hown : ∀ op ∈ ops, Waiters.names op.demux.spec ≠ some w.nextRequestId :=
    fun op hop => h.own_all op (List.mem_append_right _ (hops.subset hop))
  constructor
  case refines => exact hrefines
  case key =>
    intro v hv hid
    have hmem := hbalanced.order.subset hv
    rw [booksOf, Waiters.Books.play_registered] at hmem
    obtain hmem | hmem := List.mem_append.mp hmem
    · obtain hmem | hmem := List.mem_append.mp hmem
      · exact absurd hid (liveBefore_own h v hmem)
      · rw [List.mem_singleton.mp hmem]
        rfl
    · have hreg := List.mem_map_of_mem (f := fun v => v.id) hmem
      rw [registered_ids, hid] at hreg
      exact absurd hreg (registeredIds_own hown)
  case once =>
    intro r r' hr hr'
    obtain ⟨c,hc,hid,rfl⟩ := (hsent r).mp hr
    obtain ⟨c',hc',hid',rfl⟩ := (hsent r').mp hr'
    have honce := hbalanced.completed_once hids
    rw [Waiters.Books.completed, List.map_map] at honce
    exact congrArg Prod.snd (List.inj_on_of_nodup_map honce hc hc' (hid.trans hid'.symm))
  case gone =>
    intro r hr v hv
    obtain ⟨c,hc,hid,_⟩ := (hsent r).mp hr
    have hgone := hbalanced.completed_gone hids (List.mem_map_of_mem hc) hv
    rwa [hid] at hgone
  case traceless =>
    intro hno
    have hwithout : Waiters.without w.nextRequestId (liveBefore history ++ [ownWaiter w target]) =
        liveBefore history := by
      rw [Waiters.without_append, Waiters.without_eq_self (liveBefore_own h)]
      simp [Waiters.without, ownWaiter]
    rw [booksOf_without hown, hwithout]
    intro c hc hid
    cases hresult : c.2 with
    | error e => exact ⟨e,rfl⟩
    | ok payload => exact absurd ((hsent _).mpr ⟨c,hc,hid,hresult⟩) (hno payload)

/-! ## A failed call -/

/-- A state that refines the list of the waiters without the call answers like it. -/
theorem leavesNothing_of_entries (h : InRun w history sch) {out : SendOutcome} {ops : List MuxOp}
    (hops : ops.Sublist sch.all) (hmeanwhile : out.meanwhile = ops.map MuxOp.demux)
    (hentries : Refines out.worker.pending
      (booksOf (liveBefore history) (ops.map MuxOp.demux)).live) :
    LeavesNothing history out := by
  have hlive : liveWithout history out =
      (booksOf (liveBefore history) (ops.map MuxOp.demux)).live := by
    rw [liveWithout, hmeanwhile, booksOf_append_live]
    rfl
  refine ⟨hlive ▸ hentries,?_⟩
  intro later hlater
  have hids := h.ids ⟨"", 0⟩ hops
  have horder := (booksOf_balanced (liveBefore history) (ops.map MuxOp.demux)).order.map (·.id)
  rw [booksOf_registered] at horder
  rw [List.map_append, List.append_assoc] at hids
  have hnodup := hids.sublist (List.Sublist.append (List.Sublist.refl _)
    (List.sublist_append_right _ _))
  rw [hlive]
  exact (play_refines hentries (by
    rw [hlater, List.append_nil]
    exact hnodup.sublist horder)).2

/-- A worker that closes leaves no waiter at all. -/
theorem leavesNothing_of_close {out : SendOutcome} {ops : List (DemuxOp UInt64)} {error : String}
    (hmeanwhile : out.meanwhile = ops ++ [.failAll error])
    (hempty : out.worker.pending = .new) : LeavesNothing history out := by
  have hlive : liveWithout history out = [] := by
    rw [liveWithout, hmeanwhile, ← List.append_assoc, booksOf_append_live]
    rfl
  refine ⟨?_,?_⟩
  · rw [hempty, hlive]
    exact new_refines
  · intro later hlater
    rw [hempty, hlive]
    exact (play_refines new_refines (by rw [hlater]; exact List.nodup_nil)).2

/-- A response that comes between the timer of the call and the removal of its waiter. -/
def LateResponse (w : VlessMuxWorker) (target : TargetAddress) (sch : SendSchedule) : Prop :=
  ∃ payload, (w.nextRequestId, .ok payload) ∈
    sent (others (others (registered w target)
      (sch.locking ++ sch.writing ++ sch.awaiting)).state sch.late)

theorem others_append (s : PacketSessionState UInt64) (ops more : List MuxOp) :
    others s (ops ++ more) = ⟨(others (others s ops).state more).state,
      (others s ops).outcomes ++ (others (others s ops).state more).outcomes⟩ := by
  rw [others, List.map_append, play_append]
  rfl

theorem received_some {demux : DemuxRun UInt64} {channel : UInt64} {result : PacketResult}
    (h : received demux channel = some result) : (channel, result) ∈ sent demux := by
  obtain ⟨entry,hfind,rfl⟩ := Option.map_eq_some_iff.mp h
  have hchannel : entry.1 = channel := by simpa using List.find?_some hfind
  rw [← hchannel]
  exact List.mem_of_find?_eq_some hfind

theorem received_none {demux : DemuxRun UInt64} {channel : UInt64}
    (h : received demux channel = none) (result : PacketResult) : (channel, result) ∉ sent demux := by
  intro hmem
  have hnone := List.find?_eq_none.mp (Option.map_eq_none_iff.mp h) _ hmem
  simp at hnone

/-- The waiter of the call is the only one with its id, so its key need not be looked at. -/
theorem Around.named {target : TargetAddress} {ops : List MuxOp} (h : Around w history target ops) :
    (booksOf (liveBefore history ++ [ownWaiter w target]) (ops.map MuxOp.demux)).live.filter
        (!Waiters.named (packetTargetKey target.host target.port) w.nextRequestId ·) =
      Waiters.without w.nextRequestId
        (booksOf (liveBefore history ++ [ownWaiter w target]) (ops.map MuxOp.demux)).live := by
  apply List.filter_congr
  intro v hv
  by_cases hid : v.id = w.nextRequestId
  · simp [Waiters.named, hid, h.key v hv hid]
  · simp [Waiters.named, hid]

theorem awaitResponse_leavesNothing (h : InRun w history sch) (target : TargetAddress)
    (hlate : ¬ LateResponse w target sch) {worker : VlessMuxWorker}
    (hpending : worker.pending = registered w target) (write : UplinkWrite)
    {wait : PacketSessionWait UInt64}
    (hwait : wait = ⟨packetTargetKey target.host target.port, w.nextRequestId, w.nextRequestId⟩)
    {error : String}
    (herror : (worker.awaitResponse wait (sch.locking ++ sch.writing ++ sch.awaiting) sch.late
      write).result = .error error) :
    LeavesNothing history
      (worker.awaitResponse wait (sch.locking ++ sch.writing ++ sch.awaiting) sch.late write) := by
  unfold VlessMuxWorker.awaitResponse at herror ⊢
  rw [hwait] at herror ⊢
  simp only [VlessMuxWorker.meanwhile, hpending] at herror ⊢
  have hops : (sch.locking ++ sch.writing ++ sch.awaiting).Sublist sch.all :=
    List.sublist_append_left _ _
  have haround := h.around target hops
  generalize hdef : sch.locking ++ sch.writing ++ sch.awaiting = ops at *
  cases hreceived : received (others (registered w target) ops) w.nextRequestId with
  | some result =>
    simp only [hreceived] at herror ⊢
    have hmem := received_some hreceived
    have hno : ∀ payload, (w.nextRequestId, .ok payload) ∉
        sent (others (registered w target) ops) := by
      intro payload hok
      have heq := haround.once _ _ hmem hok
      rw [herror] at heq
      cases heq
    have hentries := haround.refines
    rw [← Waiters.without_eq_self (haround.gone result hmem), haround.traceless hno] at hentries
    exact leavesNothing_of_entries h hops rfl hentries
  | none =>
    simp only [hreceived] at herror ⊢
    by_cases hwaits : waits (others (registered w target) ops).state
        (packetTargetKey target.host target.port) w.nextRequestId
    · rw [if_pos hwaits]
      have hall : (ops ++ sch.late).Sublist sch.all := by
        rw [SendSchedule.all, hdef]
      have haround := h.around target hall
      have hrun := others_append (registered w target) ops sch.late
      have hno : ∀ payload, (w.nextRequestId, .ok payload) ∉
          sent (others (registered w target) (ops ++ sch.late)) := by
        intro payload hok
        rw [hrun, sent, List.flatMap_append] at hok
        obtain hok | hok := List.mem_append.mp hok
        · exact received_none hreceived _ hok
        · exact hlate ⟨payload,by rw [hdef]; exact hok⟩
      have hremove := removeById_refines haround.refines
        (packetTargetKey target.host target.port) w.nextRequestId
      rw [haround.named, haround.traceless hno, hrun] at hremove
      exact leavesNothing_of_entries h hall rfl hremove
    · rw [if_neg hwaits]
      exact leavesNothing_of_close rfl rfl

/-- A packet that can be encoded leaves no waiter behind, however the call fails. -/
theorem sendPacket_leavesNothing (h : InRun w history sch) {target : TargetAddress}
    {payload : Bytes} (henc : Encodable target payload) (hlate : ¬ LateResponse w target sch)
    {error : String} (herror : (w.sendPacket target payload sch).result = .error error) :
    LeavesNothing history (w.sendPacket target payload sch) := by
  unfold VlessMuxWorker.sendPacket at herror ⊢
  by_cases hclosed : w.closed
  · rw [if_pos hclosed]
    exact leavesNothing_of_entries h (List.nil_sublist sch.all) rfl (liveBefore_refines h)
  · rw [if_neg hclosed] at herror ⊢
    obtain ⟨frame,hframe⟩ := (encodeXudpPacket_ok_iff target payload sch.writer.firstPacket).mpr henc
    simp only [hframe] at herror ⊢
    cases hwritten : sch.written with
    | error err => exact leavesNothing_of_close rfl rfl
    | ok _ =>
      simp only [hwritten] at herror ⊢
      exact awaitResponse_leavesNothing h target hlate rfl _ rfl herror

/-! ## A packet that cannot be encoded -/

/-- Nothing else happens during the call. -/
def SendSchedule.Quiet (sch : SendSchedule) : Prop := sch.all = []

/-- The call fails behind the registration, and nothing takes it back. -/
theorem quiet_failure (hopen : w.closed = false) (hquiet : sch.Quiet) {target : TargetAddress}
    {payload : Bytes} (henc : ¬ Encodable target payload) :
    (∃ error, (w.sendPacket target payload sch).result = .error error) ∧
      (w.sendPacket target payload sch).worker.pending = registered w target ∧
      (w.sendPacket target payload sch).meanwhile = [] := by
  have hlocking : sch.locking = [] := by
    have hall := hquiet
    simp only [SendSchedule.Quiet, SendSchedule.all, List.append_eq_nil_iff] at hall
    exact hall.1.1.1
  cases hresult : encodeXudpPacket target payload sch.writer.firstPacket with
  | ok frame => exact absurd ((encodeXudpPacket_ok_iff ..).mp ⟨frame,hresult⟩) henc
  | error err =>
    have hsend : w.sendPacket target payload sch = ⟨.error err,
        { w with
          pending := registered w target
          nextRequestId := w.nextRequestId + 1
          writer := sch.writer }, none, []⟩ := by
      simp [VlessMuxWorker.sendPacket, hopen, hresult, hlocking, VlessMuxWorker.meanwhile, others,
        PacketSessionState.play, registered]
    rw [hsend]
    exact ⟨⟨err,rfl⟩,rfl,rfl⟩

theorem quiet_leak (h : InRun w history sch) (hopen : w.closed = false) (hquiet : sch.Quiet)
    {target : TargetAddress} {payload : Bytes} (henc : ¬ Encodable target payload) :
    ¬ LeavesNothing history (w.sendPacket target payload sch) := by
  obtain ⟨_,hpending,hmeanwhile⟩ := quiet_failure hopen hquiet henc
  intro hleaves
  have hwith := (register_refines (liveBefore_refines h)
    (packetTargetKey target.host target.port) w.nextRequestId w.nextRequestId).fifo
  have hwithout := hleaves.entries.fifo
  rw [hpending, liveWithout, hmeanwhile] at hwithout
  have hlen := congrArg List.length (hwith.symm.trans hwithout)
  simp [liveBefore] at hlen

end

/-- A failed call leaves the demultiplexer as it would be without it whenever its packet can
be encoded and no response falls between its timer and the removal; and with nothing else
going on, exactly when the packet can be encoded. -/
theorem send_packet_leaves_nothing (w : VlessMuxWorker) (history : List MuxOp)
    (sch : SendSchedule) (h : InRun w history sch) (target : TargetAddress) (payload : Bytes) :
    (Encodable target payload → ¬ LateResponse w target sch →
      (∃ error, (w.sendPacket target payload sch).result = .error error) →
        LeavesNothing history (w.sendPacket target payload sch)) ∧
    (w.closed = false → sch.Quiet →
      (((∃ error, (w.sendPacket target payload sch).result = .error error) →
        LeavesNothing history (w.sendPacket target payload sch)) ↔
          Encodable target payload)) := by
  refine ⟨?_,?_⟩
  · intro henc hlate ⟨error,herror⟩
    exact sendPacket_leavesNothing h henc hlate herror
  · intro hopen hquiet
    constructor
    · intro hleaves
      by_contra henc
      obtain ⟨herror,_⟩ := quiet_failure hopen hquiet henc
      exact quiet_leak h hopen hquiet henc (hleaves herror)
    · intro henc ⟨error,herror⟩
      have hlate : ¬ LateResponse w target sch := by
        have hnone : sch.late = [] := by
          have hall := hquiet
          simp only [SendSchedule.Quiet, SendSchedule.all, List.append_eq_nil_iff] at hall
          exact hall.2
        rw [LateResponse, hnone]
        intro ⟨payload,hsent⟩
        cases hsent
      exact sendPacket_leavesNothing h henc hlate herror

/-- Another call waits for the same key; the response goes to it, and the timer fires. -/
def timeoutHistory : List MuxOp := [.register "a.example:53" 0]

def timeoutWorker : VlessMuxWorker :=
  ⟨.new none, (runDemux (timeoutHistory.map MuxOp.demux)).state, 1, false⟩

def timeoutSchedule : SendSchedule :=
  ⟨[], .new none, [], .ok (), [.response "a.example:53" [7], .register "b.example:53" 2], []⟩

theorem send_packet_leaves_nothing_timeout :
    LeavesNothing timeoutHistory
      (timeoutWorker.sendPacket ⟨"A.example", 53⟩ [1] timeoutSchedule) := by
  have hrun : InRun timeoutWorker timeoutHistory timeoutSchedule :=
    ⟨rfl,by decide +kernel,by decide +kernel⟩
  have hcall := send_packet_leaves_nothing timeoutWorker timeoutHistory timeoutSchedule hrun
    ⟨"A.example", 53⟩ [1]
  refine hcall.1 (by decide +kernel) ?_ ⟨"VLESS XUDP packet response timed out",by decide +kernel⟩
  intro ⟨payload,hsent⟩
  cases hsent

def quietSchedule : SendSchedule := ⟨[], .new none, [], .ok (), [], []⟩

/-- A call with a payload of `2 ^ 16` bytes fails and leaves its waiter behind, and the
waiter takes the response to the next call. -/
theorem failed_send_steals_response :
    (¬ ∀ (w : VlessMuxWorker) (history : List MuxOp) (sch : SendSchedule),
      InRun w history sch → ∀ (target : TargetAddress) (payload : Bytes),
        (∃ error, (w.sendPacket target payload sch).result = .error error) →
          LeavesNothing history (w.sendPacket target payload sch)) ∧
    (((VlessMuxWorker.new none).sendPacket ⟨"a.example", 53⟩ (List.replicate 65536 0)
      quietSchedule).worker.pending.play [.register "a.example:53" 1 1,
        .deliver "a.example:53" (.ok [7])]).outcomes.map (·.sent) = [[], [(0, .ok [7])]] := by
  have hrun : InRun (.new none) [] quietSchedule := ⟨rfl,by decide,by decide⟩
  have henc : ¬ Encodable ⟨"a.example", 53⟩ (List.replicate 65536 0) := by
    intro henc
    have hlen := henc.1
    rw [List.length_replicate] at hlen
    omega
  have hopen : (VlessMuxWorker.new none).closed = false := rfl
  have hquiet : quietSchedule.Quiet := rfl
  obtain ⟨herror,hpending,_⟩ := quiet_failure hopen hquiet henc
  constructor
  · intro h
    exact quiet_leak hrun rfl rfl henc (h _ _ _ hrun _ _ herror)
  · rw [hpending]
    decide +kernel

end AtlasKernel.Vless
