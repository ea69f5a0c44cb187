import AtlasKernel.Lib.Steps
import Mathlib.Data.List.Nodup

/-! Who has the sessions of an AnyTLS client: its idle list, calls of `open_stream`, live
streams, or tasks that release a session after its stream was dropped. What a task does
while it holds the lock of the idle list falls among the steps of those that do not need
it. Source: `adapter/anytls.rs`. -/
namespace AtlasKernel.AnyTls
open AtlasKernel.Lib

/-- A session goes by its number. -/
structure IdleSession where
  session : Nat
  since : Nat
deriving DecidableEq, Repr

/-- How far an `open_stream` of the client has come, and then its stream: `pushing` is a
release that has found its session open. -/
inductive PoolCall where
  | cleaning
  | taking
  | creating
  | opening (session : Nat)
  | live (session : Nat)
  | releasing (session : Nat)
  | pushing (session : Nat)
  | gone
deriving DecidableEq, Repr

/-- Who holds the lock of the idle list. -/
inductive PoolLock where
  | free
  | cleaning (call : Nat) (kept : List IdleSession)
  | taking (call : Nat)
deriving DecidableEq, Repr

def PoolLock.owner : PoolLock → Option Nat
  | .free => none
  | .cleaning call _ => some call
  | .taking call => some call

structure AnyTlsClient where
  idleSessionTimeout : Nat
  minIdleSessions : Nat
  now : Nat
  closed : List Bool
  idle : List IdleSession
  lock : PoolLock
  calls : List PoolCall
deriving DecidableEq, Repr

inductive PoolEvent where
  | openStream
  | lockCleanup (call : Nat)
  | cleanupEntry
  | cleanupDone
  | lockTake (call : Nat)
  | takeEntry
  | takeNone
  | createSession (call : Nat)
  | opened (call : Nat) (accepted : Bool)
  | abandon (call : Nat)
  | dropStream (call : Nat) (upgraded : Bool)
  | releaseCheck (call : Nat)
  | releasePush (call : Nat)
  | sessionFails (session : Nat)
  | tick
deriving DecidableEq, Repr

namespace AnyTlsClient

def new (idleSessionTimeout minIdleSessions : Nat) : AnyTlsClient :=
  ⟨idleSessionTimeout, minIdleSessions, 0, [], [], .free, []⟩

def isClosed (s : AnyTlsClient) (session : Nat) : Bool := s.closed.getD session true

def setCall (s : AnyTlsClient) (call : Nat) (c : PoolCall) : AnyTlsClient :=
  { s with calls := s.calls.set call c }

def expired (s : AnyTlsClient) (entry : IdleSession) : Bool :=
  s.idleSessionTimeout ≤ s.now - entry.since

/-- The output is a session that `take_idle` hands to a call. -/
def step (s : AnyTlsClient) : PoolEvent → AnyTlsClient × List (Nat × Nat)
  | .openStream => ({ s with calls := s.calls ++ [.cleaning] }, [])
  | .lockCleanup call =>
    if s.lock = .free ∧ s.calls[call]? = some .cleaning then
      ({ s with lock := .cleaning call [] }, [])
    else (s, [])
  | .cleanupEntry =>
    match s.lock, s.idle with
    | .cleaning call kept, entry :: rest =>
      if s.isClosed entry.session || (s.expired entry && s.minIdleSessions ≤ kept.length) then
        ({ s with idle := rest, closed := s.closed.set entry.session true }, [])
      else ({ s with idle := rest, lock := .cleaning call (kept ++ [entry]) }, [])
    | _, _ => (s, [])
  | .cleanupDone =>
    match s.lock, s.idle with
    | .cleaning call kept, [] => ({ s with idle := kept, lock := .free }.setCall call .taking, [])
    | _, _ => (s, [])
  | .lockTake call =>
    if s.lock = .free ∧ s.calls[call]? = some .taking then ({ s with lock := .taking call }, [])
    else (s, [])
  | .takeEntry =>
    match s.lock, s.idle.getLast? with
    | .taking call, some entry =>
      if s.isClosed entry.session then ({ s with idle := s.idle.dropLast }, [])
      else ({ s with idle := s.idle.dropLast, lock := .free }.setCall call
        (.opening entry.session), [(call, entry.session)])
    | _, _ => (s, [])
  | .takeNone =>
    match s.lock, s.idle with
    | .taking call, [] => ({ s with lock := .free }.setCall call .creating, [])
    | _, _ => (s, [])
  | .createSession call =>
    if s.calls[call]? = some .creating then
      ({ s with closed := s.closed ++ [false] }.setCall call (.opening s.closed.length), [])
    else (s, [])
  | .opened call accepted =>
    match s.calls[call]? with
    | some (.opening session) => (s.setCall call (if accepted then .live session else .gone), [])
    | _ => (s, [])
  | .abandon call =>
    if s.lock.owner = some call then (s, [])
    else
      match s.calls[call]? with
      | some .cleaning | some .taking | some .creating | some (.opening _) =>
        (s.setCall call .gone, [])
      | _ => (s, [])
  | .dropStream call upgraded =>
    match s.calls[call]? with
    | some (.live session) =>
      (s.setCall call (if upgraded then .releasing session else .gone), [])
    | _ => (s, [])
  | .releaseCheck call =>
    match s.calls[call]? with
    | some (.releasing session) =>
      (s.setCall call (if s.isClosed session then .gone else .pushing session), [])
    | _ => (s, [])
  | .releasePush call =>
    match s.calls[call]? with
    | some (.pushing session) =>
      if s.lock = .free then
        ({ s with idle := s.idle ++ [IdleSession.mk session s.now] }.setCall call .gone, [])
      else (s, [])
    | _ => (s, [])
  | .sessionFails session => ({ s with closed := s.closed.set session true }, [])
  | .tick => ({ s with now := s.now + 1 }, [])

/-! ## Who has a session -/

def kept (s : AnyTlsClient) : List IdleSession :=
  match s.lock with
  | .cleaning _ kept => kept
  | _ => []

/-- The idle list, with what a clean-up has already looked at. -/
def idleSessions (s : AnyTlsClient) : List Nat := (s.kept ++ s.idle).map IdleSession.session

/-- No session is idle twice, or idle while a live stream owns it, or owned by two. -/
def Exclusive (s : AnyTlsClient) : Prop :=
  s.idleSessions.Nodup ∧
  (∀ call session : Nat, s.calls[call]? = some (.live session) → session ∉ s.idleSessions) ∧
  ∀ call call' session : Nat, s.calls[call]? = some (.live session) →
    s.calls[call']? = some (.live session) → call = call'

end AnyTlsClient

def PoolCall.holds : PoolCall → List Nat
  | .opening session | .live session | .releasing session | .pushing session => [session]
  | .cleaning | .taking | .creating | .gone => []

def held (calls : List PoolCall) : List Nat := calls.flatMap PoolCall.holds

theorem count_held_set {calls : List PoolCall} {call : Nat} {c : PoolCall}
    (h : calls[call]? = some c) (c' : PoolCall) (session : Nat) :
    (held (calls.set call c')).count session + c.holds.count session =
      (held calls).count session + c'.holds.count session := by
  induction calls generalizing call with
  | nil => simp at h
  | cons first rest ih =>
    cases call with
    | zero =>
      cases h
      simp only [List.set_cons_zero, held, List.flatMap_cons, List.count_append]
      omega
    | succ call =>
      have hrest := ih h
      simp only [List.set_cons_succ, held, List.flatMap_cons, List.count_append] at hrest ⊢
      omega

theorem held_append (calls : List PoolCall) (c : PoolCall) :
    held (calls ++ [c]) = held calls ++ c.holds := by
  rw [held, List.flatMap_append, List.flatMap_singleton]
  rfl

/-- The owner of the lock is at work with it. -/
def PoolLock.Held (calls : List PoolCall) : PoolLock → Prop
  | .free => True
  | .cleaning call _ => calls[call]? = some .cleaning
  | .taking call => calls[call]? = some .taking

theorem PoolLock.Held.set {calls : List PoolCall} {lock : PoolLock} (h : lock.Held calls)
    {call : Nat} (hcall : lock.owner ≠ some call) (c : PoolCall) :
    lock.Held (calls.set call c) := by
  cases lock with
  | free => trivial
  | cleaning owner kept =>
    have hne : call ≠ owner := fun heq => hcall (congrArg some heq.symm)
    exact (List.getElem?_set_ne hne).trans h
  | taking owner =>
    have hne : call ≠ owner := fun heq => hcall (congrArg some heq.symm)
    exact (List.getElem?_set_ne hne).trans h

theorem PoolLock.Held.append {calls : List PoolCall} {lock : PoolLock} (h : lock.Held calls)
    (c : PoolCall) : lock.Held (calls ++ [c]) := by
  cases lock with
  | free => trivial
  | cleaning owner kept =>
    exact (List.getElem?_append_left (List.getElem?_eq_some_iff.mp h).1).trans h
  | taking owner =>
    exact (List.getElem?_append_left (List.getElem?_eq_some_iff.mp h).1).trans h

/-- A call that has gone on from the idle list does not own its lock. -/
theorem PoolLock.Held.not_owner {calls : List PoolCall} {lock : PoolLock} (h : lock.Held calls)
    {call : Nat} {c : PoolCall} (hcall : calls[call]? = some c) (hc : c ≠ .cleaning)
    (hc' : c ≠ .taking) : lock.owner ≠ some call := by
  cases lock with
  | free => nofun
  | cleaning owner kept =>
    intro howner
    cases howner
    exact hc (Option.some.inj (hcall.symm.trans h))
  | taking owner =>
    intro howner
    cases howner
    exact hc' (Option.some.inj (hcall.symm.trans h))

namespace AnyTlsClient

/-- How often a session is to be found. -/
def places (s : AnyTlsClient) (session : Nat) : Nat :=
  s.idleSessions.count session + (held s.calls).count session

/-- Every session is in one place at most, and a number not given out yet in none. -/
structure Inv (s : AnyTlsClient) : Prop where
  once : ∀ session, s.places session ≤ 1
  given : ∀ session, s.closed.length ≤ session → s.places session = 0
  lock : s.lock.Held s.calls

theorem new_inv (idleSessionTimeout minIdleSessions : Nat) :
    (new idleSessionTimeout minIdleSessions).Inv :=
  ⟨fun _ => Nat.zero_le _, fun _ _ => rfl, trivial⟩

variable {s s' : AnyTlsClient}

theorem count_live {calls : List PoolCall} {call session : Nat}
    (h : calls[call]? = some (.live session)) : 0 < (held calls).count session := by
  rw [List.count_pos_iff, held, List.mem_flatMap]
  exact ⟨_, List.mem_of_getElem? h, List.mem_singleton.mpr rfl⟩

theorem Inv.exclusive (h : s.Inv) : s.Exclusive := by
  refine ⟨?_, fun call session hlive hmem => ?_, fun call call' session hlive hlive' => ?_⟩
  · rw [List.nodup_iff_count_le_one]
    exact fun session => Nat.le_trans (Nat.le_add_right _ _) (h.once session)
  · have honce := h.once session
    have hidle := List.count_pos_iff.mpr hmem
    have hheld := count_live hlive
    rw [places] at honce
    omega
  · by_contra hne
    have honce := h.once session
    have hset := count_held_set hlive .gone session
    have hlive'' : (s.calls.set call .gone)[call']? = some (.live session) :=
      (List.getElem?_set_ne hne).trans hlive'
    have hheld := count_live hlive''
    simp only [PoolCall.holds, List.count_singleton_self, List.count_nil] at hset
    rw [places] at honce
    omega

/-- Sessions may be lost, and none turns up a second time. -/
theorem Inv.fewer (h : s.Inv) (hplaces : ∀ session, s'.places session ≤ s.places session)
    (hclosed : s'.closed.length = s.closed.length) (hlock : s'.lock.Held s'.calls) : s'.Inv := by
  refine ⟨fun session => Nat.le_trans (hplaces session) (h.once session),
    fun session hs => ?_, hlock⟩
  have hnone := h.given session (hclosed ▸ hs)
  have hle := hplaces session
  omega

/-- A call goes on and takes over or loses what it had. -/
theorem Inv.callMoves (h : s.Inv) {call : Nat} {c : PoolCall} (hcall : s.calls[call]? = some c)
    (howner : s.lock.owner ≠ some call) (c' : PoolCall)
    (hholds : ∀ session, c'.holds.count session ≤ c.holds.count session) :
    (s.setCall call c').Inv := by
  refine h.fewer (fun session => ?_) rfl (h.lock.set howner c')
  have hset := count_held_set hcall c' session
  have hle := hholds session
  change s.idleSessions.count session + (held (s.calls.set call c')).count session ≤
    s.idleSessions.count session + (held s.calls).count session
  omega

/-! ## Every step -/

theorem Inv.openStream (h : s.Inv) : (s.step .openStream).1.Inv := by
  refine h.fewer (fun session => Nat.le_of_eq ?_) rfl (h.lock.append .cleaning)
  have hheld : held (s.calls ++ [.cleaning]) = held s.calls :=
    (held_append s.calls .cleaning).trans (List.append_nil _)
  exact congrArg (fun sessions => s.idleSessions.count session + sessions.count session) hheld

/-- The lock is taken before anything is moved. -/
theorem Inv.takeLock (h : s.Inv) (hfree : s.lock = .free) {lock : PoolLock}
    (hkept : kept { s with lock := lock } = []) (hlock : lock.Held s.calls) :
    Inv { s with lock := lock } := by
  refine h.fewer (fun session => Nat.le_of_eq ?_) rfl hlock
  have hidle : idleSessions { s with lock := lock } = s.idleSessions := by
    rw [idleSessions, idleSessions, hkept, kept, hfree]
  exact congrArg (fun sessions => sessions.count session + (held s.calls).count session) hidle

theorem Inv.lockCleanup (h : s.Inv) (call : Nat) : (s.step (.lockCleanup call)).1.Inv := by
  rw [step]
  split
  case isTrue hlock => exact h.takeLock hlock.1 rfl hlock.2
  case isFalse => exact h

theorem Inv.lockTake (h : s.Inv) (call : Nat) : (s.step (.lockTake call)).1.Inv := by
  rw [step]
  split
  case isTrue hlock => exact h.takeLock hlock.1 rfl hlock.2
  case isFalse => exact h

theorem Inv.cleanupEntry (h : s.Inv) : (s.step .cleanupEntry).1.Inv := by
  rw [step]
  split
  case h_2 => exact h
  case h_1 call looked entry rest hlock hidle =>
    have hheld := h.lock
    have hsessions : s.idleSessions = (looked ++ entry :: rest).map IdleSession.session := by
      rw [idleSessions, kept, hlock, hidle]
    split
    case isTrue =>
      refine h.fewer (fun session => ?_) (List.length_set ..) hheld
      have hless : idleSessions { s with
          idle := rest, closed := s.closed.set entry.session true } =
          (looked ++ rest).map IdleSession.session := by
        rw [idleSessions, kept, hlock]
      have hsub : ((looked ++ rest).map IdleSession.session).Sublist
          ((looked ++ entry :: rest).map IdleSession.session) :=
        ((List.sublist_cons_self entry rest).append_left looked).map _
      rw [places, places, hless, hsessions]
      exact Nat.add_le_add_right (hsub.count_le session) _
    case isFalse =>
      rw [hlock] at hheld
      refine h.fewer (fun session => Nat.le_of_eq ?_) rfl hheld
      have hsame : idleSessions { s with
          idle := rest, lock := .cleaning call (looked ++ [entry]) } = s.idleSessions := by
        rw [hsessions, idleSessions, kept, List.append_assoc, List.singleton_append]
      rw [places, places, hsame]

/-- A call gives the lock back; what it takes along it takes from the idle list. -/
theorem Inv.unlock (h : s.Inv) {call : Nat} {c c' : PoolCall} {idle : List IdleSession}
    (hcall : s.calls[call]? = some c)
    (hholds : ∀ session, (idle.map IdleSession.session).count session +
      c'.holds.count session ≤ s.idleSessions.count session + c.holds.count session) :
    Inv (setCall { s with idle := idle, lock := .free } call c') := by
  refine h.fewer (fun session => ?_) rfl trivial
  have hset := count_held_set hcall c' session
  have hle := hholds session
  change (idle.map IdleSession.session).count session +
    (held (s.calls.set call c')).count session ≤
    s.idleSessions.count session + (held s.calls).count session
  omega

theorem Inv.cleanupDone (h : s.Inv) : (s.step .cleanupDone).1.Inv := by
  rw [step]
  split
  case h_2 => exact h
  case h_1 call looked hlock hidle =>
    have hcall := h.lock
    rw [hlock] at hcall
    refine h.unlock hcall fun session => Nat.le_of_eq ?_
    rw [idleSessions, kept, hlock, hidle, List.append_nil]
    rfl

theorem Inv.takeNone (h : s.Inv) : (s.step .takeNone).1.Inv := by
  rw [step]
  split
  case h_2 => exact h
  case h_1 call hlock hidle =>
    have hcall := h.lock
    rw [hlock] at hcall
    refine h.unlock hcall fun session => ?_
    rw [hidle]
    exact Nat.zero_le _

theorem Inv.takeEntry (h : s.Inv) : (s.step .takeEntry).1.Inv := by
  rw [step]
  split
  case h_2 => exact h
  case h_1 call entry hlock hlast =>
    have hcall := h.lock
    have hidle : s.idle.dropLast ++ [entry] = s.idle := List.dropLast_append_getLast? entry hlast
    have hsessions (session : Nat) : s.idleSessions.count session =
        (s.idle.dropLast.map IdleSession.session).count session +
          [entry.session].count session := by
      rw [idleSessions, kept, hlock, List.nil_append, ← List.count_append, ← List.map_singleton,
        ← List.map_append, hidle]
    split
    case isTrue =>
      refine h.fewer (fun session => ?_) rfl hcall
      have hless : idleSessions { s with idle := s.idle.dropLast } =
          s.idle.dropLast.map IdleSession.session := by
        rw [idleSessions, kept, hlock, List.nil_append]
      rw [places, places, hless, hsessions]
      exact Nat.add_le_add_right (Nat.le_add_right _ _) _
    case isFalse =>
      rw [hlock] at hcall
      refine h.unlock hcall fun session => ?_
      rw [hsessions]
      exact Nat.le_refl _

/-- The new session gets a number that no place has yet. -/
theorem Inv.createSession (h : s.Inv) (call : Nat) : (s.step (.createSession call)).1.Inv := by
  rw [step]
  split
  case isFalse => exact h
  case isTrue hcall =>
    have howner : s.lock.owner ≠ some call := h.lock.not_owner hcall nofun nofun
    have hplaces (session : Nat) : places (setCall { s with closed := s.closed ++ [false] } call
        (.opening s.closed.length)) session =
        s.places session + [s.closed.length].count session := by
      have hset := count_held_set hcall (.opening s.closed.length) session
      change s.idleSessions.count session +
        (held (s.calls.set call (.opening s.closed.length))).count session =
        s.idleSessions.count session + (held s.calls).count session + _
      simp only [PoolCall.holds, List.count_nil] at hset
      omega
    refine ⟨fun session => ?_, fun session hs => ?_, h.lock.set howner _⟩
    · rw [hplaces]
      by_cases hnew : session = s.closed.length
      · have hnone := h.given session (Nat.le_of_eq hnew.symm)
        have hcount : [s.closed.length].count session = 1 := hnew ▸ List.count_singleton_self
        omega
      · rw [List.count_singleton, if_neg (by simpa using Ne.symm hnew)]
        exact h.once session
    · have hlen : s.closed.length + 1 ≤ session := by simpa [AnyTlsClient.setCall] using hs
      rw [hplaces, h.given session (by omega), List.count_singleton,
        if_neg (by simp only [beq_iff_eq]; omega)]

theorem Inv.releasePush (h : s.Inv) (call : Nat) : (s.step (.releasePush call)).1.Inv := by
  rw [step]
  split
  case h_2 => exact h
  case h_1 session hcall =>
    split
    case isFalse => exact h
    case isTrue hfree =>
      have hsame : setCall { s with idle := s.idle ++ [IdleSession.mk session s.now] } call .gone =
          setCall { s with idle := s.idle ++ [IdleSession.mk session s.now], lock := .free } call
            .gone := by
        rw [hfree]
      rw [hsame]
      refine h.unlock hcall fun session' => Nat.le_of_eq ?_
      rw [idleSessions, kept, hfree, List.nil_append, List.map_append, List.count_append]
      rfl

theorem step_inv (h : s.Inv) (event : PoolEvent) : (s.step event).1.Inv := by
  cases event with
  | openStream => exact h.openStream
  | lockCleanup call => exact h.lockCleanup call
  | cleanupEntry => exact h.cleanupEntry
  | cleanupDone => exact h.cleanupDone
  | lockTake call => exact h.lockTake call
  | takeEntry => exact h.takeEntry
  | takeNone => exact h.takeNone
  | createSession call => exact h.createSession call
  | opened call accepted =>
    rw [step]
    split
    case h_2 => exact h
    case h_1 session hcall =>
      refine h.callMoves hcall (h.lock.not_owner hcall nofun nofun) _ fun other => ?_
      cases accepted with
      | true => exact Nat.le_refl _
      | false => exact Nat.zero_le _
  | abandon call =>
    rw [step]
    split
    case isTrue => exact h
    case isFalse howner =>
      split
      case h_5 => exact h
      all_goals
        rename_i hcall
        exact h.callMoves hcall howner .gone fun other => Nat.zero_le _
  | dropStream call upgraded =>
    rw [step]
    split
    case h_2 => exact h
    case h_1 session hcall =>
      refine h.callMoves hcall (h.lock.not_owner hcall nofun nofun) _ fun other => ?_
      cases upgraded with
      | true => exact Nat.le_refl _
      | false => exact Nat.zero_le _
  | releaseCheck call =>
    rw [step]
    split
    case h_2 => exact h
    case h_1 session hcall =>
      refine h.callMoves hcall (h.lock.not_owner hcall nofun nofun) _ fun other => ?_
      split
      · exact Nat.zero_le _
      · exact Nat.le_refl _
  | releasePush call => exact h.releasePush call
  | sessionFails session =>
    exact h.fewer (fun _ => Nat.le_refl _) (List.length_set ..) h.lock
  | tick => exact h.fewer (fun _ => Nat.le_refl _) rfl h.lock

theorem run_inv (idleSessionTimeout minIdleSessions : Nat) (events : List PoolEvent) :
    (run step (new idleSessionTimeout minIdleSessions) events).1.Inv := by
  have h := new_inv idleSessionTimeout minIdleSessions
  generalize new idleSessionTimeout minIdleSessions = s at h
  induction events generalizing s with
  | nil => exact h
  | cons event events ih => exact ih _ (step_inv h event)

theorem nothing_handed_out (s : AnyTlsClient) {event : PoolEvent} (h : event ≠ .takeEntry) :
    (s.step event).2 = [] := by
  cases event <;> grind [step]

/-- A session is handed out from the end of the idle list, and only while it is open. -/
theorem handed_out_open (s : AnyTlsClient) (event : PoolEvent) {call session : Nat}
    (h : (call, session) ∈ (s.step event).2) :
    s.isClosed session = false ∧ session ∈ s.idleSessions := by
  by_cases htake : event = .takeEntry
  · rw [htake, step] at h
    split at h
    case h_2 => exact absurd h List.not_mem_nil
    case h_1 taker entry hlock hlast =>
      split at h
      case isTrue => exact absurd h List.not_mem_nil
      case isFalse hopen =>
        cases List.mem_singleton.mp h
        refine ⟨eq_false_of_ne_true hopen, ?_⟩
        rw [idleSessions, List.map_append, List.mem_append]
        exact .inr (List.mem_map_of_mem (List.mem_of_getLast? hlast))
  · rw [s.nothing_handed_out htake] at h
    exact absurd h List.not_mem_nil

end AnyTlsClient

/-- In every run of the client its sessions are exclusive, and what the next step hands out
is open. -/
theorem anytls_idle_pool_exclusive (idleSessionTimeout minIdleSessions : Nat)
    (events : List PoolEvent) (event : PoolEvent) :
    let s := (run AnyTlsClient.step (.new idleSessionTimeout minIdleSessions) events).1
    s.Exclusive ∧ ∀ handed ∈ (s.step event).2,
      s.isClosed handed.2 = false ∧ handed.2 ∈ s.idleSessions := by
  refine ⟨(AnyTlsClient.run_inv idleSessionTimeout minIdleSessions events).exclusive,
    fun handed hhanded => ?_⟩
  exact AnyTlsClient.handed_out_open _ event hhanded

/-- The second call gets the session of the first. -/
example : (run AnyTlsClient.step (.new 30 0) [.openStream, .lockCleanup 0, .cleanupDone,
    .lockTake 0, .takeNone, .createSession 0, .opened 0 true, .openStream, .dropStream 0 true,
    .releaseCheck 0, .releasePush 0, .lockCleanup 1, .cleanupEntry, .cleanupDone, .lockTake 1,
    .takeEntry]).2 = [(1, 0)] := by decide

end AtlasKernel.AnyTls
