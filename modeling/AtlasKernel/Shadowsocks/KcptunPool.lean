import AtlasKernel.Lib.Steps
import AtlasKernel.Shadowsocks.KcptunConfig

/-! The sessions of the kcptun plugin. Every call takes its turn among the sessions of its pool;
where there is none it makes one behind a lock of its own for each place, and between the locks
other calls come, time passes, sessions end and calls are given up. Source: `transport.rs` of the
Shadowsocks adapter. -/
namespace AtlasKernel.Shadowsocks
open AtlasKernel.Lib

/-! ## Pools -/

/-- A session goes by its number; it has expired when it is scavenged. -/
structure KcptunPoolSlot where
  session : Nat
  expiresAt : Option Nat
  scavengeAfter : Option Nat
  ordered : ∀ scavenge ∈ scavengeAfter, ∃ expires ∈ expiresAt, expires ≤ scavenge
deriving DecidableEq

/-- Instants are nanoseconds. -/
def seconds (n : Nat) : Nat := n * 1000000000

/-- There is no instant behind `latest`; an addition that leads there panics. -/
def KcptunPoolSlot.new? (latest now session : Nat) (config : KcptunConfig) : Option KcptunPoolSlot :=
  if 0 < config.autoExpire then
    let expires := now + seconds config.autoExpire
    let scavenge := expires + seconds (max config.scavengeTtl 1)
    if scavenge ≤ latest then
      some ⟨session,some expires,some scavenge,fun _ h => ⟨expires,rfl,by cases h; exact Nat.le_add_right _ _⟩⟩
    else none
  else some ⟨session,none,none,nofun⟩

def KcptunPoolSlot.reusable (closed : Nat → Bool) (now : Nat) (slot : KcptunPoolSlot) : Bool :=
  !closed slot.session && slot.expiresAt.all (now < ·)

def KcptunPoolSlot.shouldScavenge (closed : Nat → Bool) (now : Nat) (slot : KcptunPoolSlot) : Bool :=
  closed slot.session || slot.scavengeAfter.any (· ≤ now)

structure KcptunSessionPool where
  sessions : List (Option KcptunPoolSlot)
  rr : UInt64
  lastUsed : Nat
deriving DecidableEq

namespace KcptunSessionPool

def new (size now : Nat) : KcptunSessionPool := ⟨List.replicate size none, 0, now⟩

def scavenge (closed : Nat → Bool) (now : Nat) (pool : KcptunSessionPool) : KcptunSessionPool :=
  { pool with
    lastUsed := now
    sessions := pool.sessions.map (·.filter (!·.shouldScavenge closed now)) }

def slotAt (pool : KcptunSessionPool) (idx : Nat) : Option KcptunPoolSlot := pool.sessions[idx]?.join

def sessionAt (closed : Nat → Bool) (now : Nat) (pool : KcptunSessionPool) (idx : Nat) : Option Nat :=
  ((pool.slotAt idx).filter (·.reusable closed now)).map (·.session)

def setSlot (pool : KcptunSessionPool) (idx : Nat) (slot : KcptunPoolSlot) : KcptunSessionPool :=
  { pool with sessions := pool.sessions.set idx (some slot) }

end KcptunSessionPool

/-! ## Calls -/

/-- Where a call of `open_kcptun_stream` waits, with its place in the pool. -/
inductive KcptunPhase where
  | waiting (idx : Nat)
  | checking (idx : Nat)
  | creating (idx : Nat)
  | storing (idx session : Nat)
  | opening (idx session : Nat)
  | rewaiting (idx : Nat)
  | recreating (idx : Nat)
  | restoring (idx session : Nat)
  | reopening (idx session : Nat)
  | finished
deriving DecidableEq, Repr

structure KcptunCall where
  address : SocketAddr
  config : AppliedConfig
  phase : KcptunPhase

/-- What it was made with, and whether it has ended. -/
structure KcptunSession where
  address : SocketAddr
  config : AppliedConfig
  closed : Bool

/-- A create lock goes by its name and is held by a call. -/
structure KcptunPools where
  pools : List Char → Option KcptunSessionPool
  creates : List Char → Option Nat
  calls : List KcptunCall
  sessions : List KcptunSession
  now : Nat

inductive KcptunEvent where
  | open (address : SocketAddr) (config : AppliedConfig)
  | run (call : Nat) (ok : Bool)
  | cancel (call : Nat)
  | close (session : Nat)
  | tick (n : Nat)

inductive KcptunOutput where
  | pooled (call session : Nat)
  | stream (call session : Nat)
  | failed (call : Nat)
  | panicked (call : Nat)
deriving DecidableEq, Repr

/-- `{key}:{idx}` -/
def createLockName (key : List Char) (idx : Nat) : List Char := key ++ ':' :: natText idx

/-- The place whose create lock the call holds. -/
def KcptunPhase.holds : KcptunPhase → Option Nat
  | .checking idx | .creating idx | .storing idx _ => some idx
  | .recreating idx | .restoring idx _ | .reopening idx _ => some idx
  | .waiting _ | .opening _ _ | .rewaiting _ | .finished => none

section
variable (sha256 : Bytes → Bytes) (latest : Nat)

def KcptunCall.key (call : KcptunCall) : List Char := call.config.config.poolKey sha256 call.address

def KcptunSession.key (session : KcptunSession) : List Char :=
  session.config.config.poolKey sha256 session.address

def KcptunCall.lock (call : KcptunCall) : Option (List Char) :=
  call.phase.holds.map (createLockName (call.key sha256))

namespace KcptunPools

def new : KcptunPools := ⟨fun _ => none, fun _ => none, [], [], 0⟩

def isClosed (s : KcptunPools) (session : Nat) : Bool := s.sessions[session]?.elim true (·.closed)

/-- `retain` on the pools: a pool is kept for a session, or for its last use. -/
def retained (s : KcptunPools) (config : KcptunConfig) (key : List Char) : Option KcptunSessionPool :=
  (s.pools key).bind fun pool =>
    let pool := pool.scavenge s.isClosed s.now
    if pool.sessions.any Option.isSome || s.now - pool.lastUsed < seconds (max config.scavengeTtl 1)
      then some pool else none

/-- The pool of the key as it is entered, of the size that the configuration asks for. -/
def entered (s : KcptunPools) (pool : Option KcptunSessionPool) (config : KcptunConfig) :
    KcptunSessionPool :=
  let pool := pool.getD (.new config.conn s.now)
  if pool.sessions.length ≠ config.conn then .new config.conn s.now else pool

def setPool (s : KcptunPools) (key : List Char) (pool : KcptunSessionPool) : KcptunPools :=
  { s with pools := Function.update s.pools key (some pool) }

/-- The call goes on, and the lock it no longer needs is free. -/
def setPhase (s : KcptunPools) (i : Nat) (call : KcptunCall) (phase : KcptunPhase) : KcptunPools :=
  { s with calls := s.calls.set i { call with phase := phase } }

def release (s : KcptunPools) (name : Option (List Char)) : KcptunPools :=
  match name with
  | some name => { s with creates := Function.update s.creates name none }
  | none => s

def acquire (s : KcptunPools) (i : Nat) (name : List Char) : KcptunPools :=
  { s with creates := Function.update s.creates name (some i) }

/-- `create_kcptun_session` -/
def made (s : KcptunPools) (call : KcptunCall) : KcptunPools :=
  { s with sessions := s.sessions ++ [⟨call.address, call.config, false⟩] }

def opens (s : KcptunPools) (address : SocketAddr) (config : AppliedConfig) :
    KcptunPools × List KcptunOutput :=
  let key := config.config.poolKey sha256 address
  let i := s.calls.length
  let s := { s with pools := s.retained config.config }
  let pool := (s.entered (s.pools key) config.config).scavenge s.isClosed s.now
  let enter := fun (s : KcptunPools) phase => { s with calls := s.calls ++ [⟨address, config, phase⟩] }
  if pool.sessions.length = 0 then (enter (s.setPool key pool) .finished, [.panicked i])
  else
    let idx := pool.rr.toNat % pool.sessions.length
    let s := s.setPool key { pool with rr := pool.rr + 1 }
    match pool.sessionAt s.isClosed s.now idx with
    | some session => (enter s (.opening idx session), [.pooled i session])
    | none => (enter s (.waiting idx), [])

/-- `pool.sessions[idx] = Some(KcptunPoolSlot::new(..))` -/
def store? (s : KcptunPools) (key : List Char) (pool : KcptunSessionPool) (idx session : Nat)
    (config : KcptunConfig) : KcptunPools × Bool :=
  match KcptunPoolSlot.new? latest s.now session config with
  | some slot =>
    if idx < pool.sessions.length then (s.setPool key (pool.setSlot idx slot), true)
    else (s.setPool key pool, false)
  | none => (s.setPool key pool, false)

/-- The call goes on to where it next waits. -/
def runs (s : KcptunPools) (i : Nat) (call : KcptunCall) (ok : Bool) :
    KcptunPools × List KcptunOutput :=
  let key := call.key sha256
  let config := call.config.config
  let ends := fun (s : KcptunPools) => (s.release (call.lock sha256)).setPhase i call .finished
  match call.phase with
  | .waiting idx =>
    let name := createLockName key idx
    if s.creates name = none then ((s.acquire i name).setPhase i call (.checking idx), []) else (s, [])
  | .checking idx =>
    match s.pools key with
    | none => (s.setPhase i call (.creating idx), [])
    | some pool =>
      if pool.sessions.length ≠ config.conn then (s.setPhase i call (.creating idx), [])
      else
        let pool := pool.scavenge s.isClosed s.now
        let s := s.setPool key pool
        match pool.sessionAt s.isClosed s.now idx with
        | some session =>
          ((s.release (call.lock sha256)).setPhase i call (.opening idx session), [.pooled i session])
        | none => (s.setPhase i call (.creating idx), [])
  | .creating idx =>
    if ok then ((s.made call).setPhase i call (.storing idx s.sessions.length), [])
    else (ends s, [.failed i])
  | .storing idx session =>
    match s.store? latest key (s.entered (s.pools key) config) idx session config with
    | (s, true) => ((s.release (call.lock sha256)).setPhase i call (.opening idx session), [])
    | (s, false) => (ends s, [.panicked i])
  | .opening idx session =>
    if ok then (ends s, [.stream i session]) else (s.setPhase i call (.rewaiting idx), [])
  | .rewaiting idx =>
    let name := createLockName key idx
    if s.creates name = none then ((s.acquire i name).setPhase i call (.recreating idx), []) else (s, [])
  | .recreating idx =>
    if ok then ((s.made call).setPhase i call (.restoring idx s.sessions.length), [])
    else (ends s, [.failed i])
  | .restoring idx session =>
    let pool := (s.pools key).getD (.new config.conn s.now)
    if pool.sessions.length = config.conn then
      match s.store? latest key pool idx session config with
      | (s, true) => (s.setPhase i call (.reopening idx session), [])
      | (s, false) => (ends s, [.panicked i])
    else ((s.setPool key pool).setPhase i call (.reopening idx session), [])
  | .reopening _ session => if ok then (ends s, [.stream i session]) else (ends s, [.failed i])
  | .finished => (s, [])

def step (s : KcptunPools) : KcptunEvent → KcptunPools × List KcptunOutput
  | .open address config => s.opens sha256 address config
  | .run i ok =>
    match s.calls[i]? with
    | some call => s.runs sha256 latest i call ok
    | none => (s, [])
  | .cancel i =>
    match s.calls[i]? with
    | some call => ((s.release (call.lock sha256)).setPhase i call .finished, [])
    | none => (s, [])
  | .close session =>
    ({ s with sessions := s.sessions.modify session fun r => { r with closed := true } }, [])
  | .tick n => ({ s with now := s.now + n }, [])

end KcptunPools
end

/-! ## Slots that stay -/

/-- What is scavenged could not be used again. -/
theorem KcptunPoolSlot.not_reusable {closed : Nat → Bool} {now : Nat} {slot : KcptunPoolSlot}
    (h : slot.shouldScavenge closed now = true) : slot.reusable closed now = false := by
  rw [shouldScavenge, Bool.or_eq_true] at h
  rw [reusable]
  rcases h with hclosed | hlate
  · rw [hclosed]
    rfl
  · obtain ⟨scavenge,hscavenge,hnow⟩ := Option.any_eq_true _ _ |>.mp hlate
    obtain ⟨expires,hexpires,hle⟩ := slot.ordered scavenge hscavenge
    have hpast : ¬ now < expires := Nat.not_lt.mpr (Nat.le_trans hle (of_decide_eq_true hnow))
    rw [Option.mem_def.mp hexpires, Option.all_some, decide_eq_false hpast, Bool.and_false]

namespace KcptunSessionPool
variable {pool : KcptunSessionPool} {closed : Nat → Bool} {now idx : Nat}

theorem slotAt_scavenge : (pool.scavenge closed now).slotAt idx =
    (pool.slotAt idx).filter (!·.shouldScavenge closed now) := by
  rw [slotAt, slotAt, scavenge, List.getElem?_map]
  rcases pool.sessions[idx]? with _ | (_ | slot) <;> rfl

@[simp] theorem length_scavenge : (pool.scavenge closed now).sessions.length = pool.sessions.length :=
  List.length_map _

theorem slotAt_new (size : Nat) : (new size now).slotAt idx = none := by
  rw [slotAt, new, List.getElem?_replicate]
  split_ifs <;> rfl

theorem slotAt_setSlot {slot : KcptunPoolSlot} {place : Nat} (h : place < pool.sessions.length) :
    (pool.setSlot place slot).slotAt idx = if place = idx then some slot else pool.slotAt idx := by
  rw [slotAt, slotAt, setSlot, List.getElem?_set]
  by_cases hidx : place = idx
  · subst hidx
    rw [if_pos rfl, if_pos rfl, if_pos h]
    rfl
  · rw [if_neg hidx, if_neg hidx]

end KcptunSessionPool

/-! ## Pools that age -/

/-- The pools by their keys. -/
abbrev PoolMap := List Char → Option KcptunSessionPool

def PoolMap.slotAt (pools : PoolMap) (key : List Char) (idx : Nat) : Option KcptunPoolSlot :=
  (pools key).bind (·.slotAt idx)

/-- The slot is as it was, or it is empty and what it held could not be used again. -/
def SlotAged (closed : Nat → Bool) (now : Nat) (slot slot' : Option KcptunPoolSlot) : Prop :=
  slot' = slot ∨ slot' = none ∧ ∀ old ∈ slot, old.reusable closed now = false

theorem SlotAged.trans {closed : Nat → Bool} {now : Nat} {slot slot' slot'' : Option KcptunPoolSlot}
    (h : SlotAged closed now slot slot') (h' : SlotAged closed now slot' slot'') :
    SlotAged closed now slot slot'' := by
  rcases h' with rfl | ⟨rfl,hold⟩
  · exact h
  · rcases h with rfl | ⟨_,hold'⟩
    · exact .inr ⟨rfl,hold⟩
    · exact .inr ⟨rfl,hold'⟩

/-- No pool is forgotten or of another size, and its slots only age. -/
structure Aged (closed : Nat → Bool) (now : Nat) (pools pools' : PoolMap) : Prop where
  kept : ∀ key pool, pools key = some pool →
    ∃ pool', pools' key = some pool' ∧ pool'.sessions.length = pool.sessions.length
  slots : ∀ key idx, SlotAged closed now (pools.slotAt key idx) (pools'.slotAt key idx)

variable {closed : Nat → Bool} {now : Nat} {pools pools' pools'' : PoolMap}

theorem Aged.refl (closed : Nat → Bool) (now : Nat) (pools : PoolMap) : Aged closed now pools pools :=
  ⟨fun _ pool h => ⟨pool,h,rfl⟩,fun _ _ => .inl rfl⟩

theorem Aged.trans (h : Aged closed now pools pools') (h' : Aged closed now pools' pools'') :
    Aged closed now pools pools'' := by
  refine ⟨fun key pool hpool => ?_,fun key idx => (h.slots key idx).trans (h'.slots key idx)⟩
  obtain ⟨pool',hpool',hlen⟩ := h.kept key pool hpool
  obtain ⟨pool'',hpool'',hlen'⟩ := h'.kept key pool' hpool'
  exact ⟨pool'',hpool'',hlen'.trans hlen⟩

theorem slotAt_update (pools : PoolMap) (key : List Char) (pool : KcptunSessionPool)
    (key' : List Char) (idx : Nat) :
    PoolMap.slotAt (Function.update pools key (some pool)) key' idx =
      if key' = key then pool.slotAt idx else pools.slotAt key' idx := by
  rw [PoolMap.slotAt, PoolMap.slotAt]
  by_cases hkey : key' = key
  · subst hkey
    rw [Function.update_self, if_pos rfl]
    rfl
  · rw [Function.update_of_ne hkey, if_neg hkey]

/-- One pool ages, or comes to be without a session. -/
theorem Aged.update {key : List Char} {pool' : KcptunSessionPool}
    (hlen : ∀ pool, pools key = some pool → pool'.sessions.length = pool.sessions.length)
    (hslots : ∀ idx, SlotAged closed now (pools.slotAt key idx) (pool'.slotAt idx)) :
    Aged closed now pools (Function.update pools key (some pool')) := by
  refine ⟨fun other pool hpool => ?_,fun other idx => ?_⟩
  · by_cases hkey : other = key
    · subst hkey
      exact ⟨pool',Function.update_self ..,hlen pool hpool⟩
    · exact ⟨pool,by rw [Function.update_of_ne hkey, hpool],rfl⟩
  · rw [slotAt_update]
    by_cases hkey : other = key
    · subst hkey
      rw [if_pos rfl]
      exact hslots idx
    · rw [if_neg hkey]
      exact .inl rfl

theorem slotAged_scavenge (pool : KcptunSessionPool) (idx : Nat) :
    SlotAged closed now (pool.slotAt idx) ((pool.scavenge closed now).slotAt idx) := by
  rw [KcptunSessionPool.slotAt_scavenge]
  cases pool.slotAt idx with
  | none => exact .inl rfl
  | some slot =>
    cases hscavenge : slot.shouldScavenge closed now with
    | false =>
      rw [Option.filter_some, hscavenge]
      exact .inl rfl
    | true =>
      rw [Option.filter_some, hscavenge]
      refine .inr ⟨rfl,fun old hold => ?_⟩
      cases hold
      exact KcptunPoolSlot.not_reusable hscavenge

theorem Aged.scavenge {key : List Char} {pool : KcptunSessionPool} (h : pools key = some pool)
    (rr : UInt64) : Aged closed now pools
      (Function.update pools key (some { pool.scavenge closed now with rr := rr })) := by
  have hslot : ∀ idx, pools.slotAt key idx = pool.slotAt idx := fun idx => by
    rw [PoolMap.slotAt, h]
    rfl
  refine .update (fun other hother => ?_) fun idx => ?_
  · rw [h] at hother
    cases hother
    exact KcptunSessionPool.length_scavenge
  · rw [hslot]
    exact slotAged_scavenge pool idx

namespace KcptunPools
variable {s : KcptunPools}

/-- The last use of every pool has just been set. -/
theorem retained_eq (s : KcptunPools) (config : KcptunConfig) (key : List Char) :
    s.retained config key = (s.pools key).map (·.scavenge s.isClosed s.now) := by
  have hrecent : ∀ pool : KcptunSessionPool,
      s.now - (pool.scavenge s.isClosed s.now).lastUsed < seconds (max config.scavengeTtl 1) := by
    intro pool
    have hnow : (pool.scavenge s.isClosed s.now).lastUsed = s.now := rfl
    have hpos : 1 ≤ max config.scavengeTtl 1 := Nat.le_max_right _ _
    rw [hnow, Nat.sub_self, seconds]
    omega
  rw [retained]
  cases s.pools key with
  | none => rfl
  | some pool => simp [hrecent]

theorem retained_aged (s : KcptunPools) (config : KcptunConfig) :
    Aged s.isClosed s.now s.pools (s.retained config) := by
  refine ⟨fun key pool hpool => ?_,fun key idx => ?_⟩
  · rw [retained_eq, hpool]
    exact ⟨_,rfl,KcptunSessionPool.length_scavenge⟩
  · rw [PoolMap.slotAt, PoolMap.slotAt, retained_eq]
    cases s.pools key with
    | none => exact .inl rfl
    | some pool => exact slotAged_scavenge pool idx

end KcptunPools

end AtlasKernel.Shadowsocks
