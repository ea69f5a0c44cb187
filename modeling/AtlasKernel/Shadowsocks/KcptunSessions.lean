import AtlasKernel.Shadowsocks.KcptunPool

/-! What holds of the kcptun sessions whatever comes and in whatever order: a session serves the
calls it was made for, and one that can still be used is only given up when a stream could not be
opened on it. -/
namespace AtlasKernel.Shadowsocks
open AtlasKernel.Lib

/-! ## The invariant -/

/-- The place in the pool, the session, and the place at which nothing was found behind the lock. -/
def KcptunPhase.place : KcptunPhase → Option Nat
  | .waiting idx | .rewaiting idx | .opening idx _ => some idx
  | phase => phase.holds

def KcptunPhase.session : KcptunPhase → Option Nat
  | .storing _ session | .opening _ session | .restoring _ session | .reopening _ session => some session
  | _ => none

def KcptunPhase.checked : KcptunPhase → Option Nat
  | .creating idx | .storing idx _ => some idx
  | _ => none

namespace KcptunPools

/-- The session was made under the key. -/
def MadeFor (sha256 : Bytes → Bytes) (s : KcptunPools) (session : Nat) (key : List Char) : Prop :=
  ∃ r, s.sessions[session]? = some r ∧ r.key sha256 = key

/-- A call in its place in a pool that is there, with a session of its own key. What it has not
found in the pool is still not there. -/
structure Sane (sha256 : Bytes → Bytes) (s : KcptunPools) (call : KcptunCall) : Prop where
  pooled : ∃ pool, s.pools (call.key sha256) = some pool
  placed : ∀ idx ∈ call.phase.place, idx < call.config.config.conn
  owned : ∀ session ∈ call.phase.session, MadeFor sha256 s session (call.key sha256)
  fresh : ∀ idx ∈ call.phase.checked, ∀ slot ∈ PoolMap.slotAt s.pools (call.key sha256) idx,
    slot.reusable s.isClosed s.now = false

/-- The pool has the size that the calls for its key ask for. -/
def Sized (sha256 : Bytes → Bytes) (pools : PoolMap) : Prop :=
  ∀ (config : AppliedConfig) address pool, pools (config.config.poolKey sha256 address) = some pool →
    pool.sessions.length = config.config.conn

structure Inv (sha256 : Bytes → Bytes) (s : KcptunPools) : Prop where
  sized : Sized sha256 s.pools
  slots : ∀ key idx, ∀ slot ∈ PoolMap.slotAt s.pools key idx, MadeFor sha256 s slot.session key
  calls : ∀ (i : Nat) (call : KcptunCall), s.calls[i]? = some call → Sane sha256 s call
  locks : ∀ name i, s.creates name = some i ↔
    ∃ call : KcptunCall, s.calls[i]? = some call ∧ call.lock sha256 = some name

variable {sha256 : Bytes → Bytes} {s : KcptunPools}

theorem new_inv (sha256 : Bytes → Bytes) : Inv sha256 new :=
  ⟨fun _ _ _ h => (nomatch h),fun _ _ _ h => (nomatch h),fun _ _ h => (nomatch h),
    fun _ _ => ⟨nofun,fun ⟨_,h,_⟩ => (nomatch h)⟩⟩

theorem Inv.setCall (h : Inv sha256 s) {i : Nat} {call : KcptunCall} (hcall : s.calls[i]? = some call)
    {phase : KcptunPhase} (hsane : Sane sha256 s { call with phase := phase })
    {creates : List Char → Option Nat} (hlocks : ∀ name j, creates name = some j ↔
      if j = i then ({ call with phase := phase } : KcptunCall).lock sha256 = some name
      else s.creates name = some j) :
    Inv sha256 ({ s with creates := creates }.setPhase i call phase) := by
  have hlt : i < s.calls.length := (List.getElem?_eq_some_iff.mp hcall).1
  have hget : ∀ j, (s.calls.set i { call with phase := phase })[j]? =
      if i = j then some { call with phase := phase } else s.calls[j]? := by
    intro j
    rw [List.getElem?_set]
    by_cases hj : i = j
    · subst hj
      rw [if_pos rfl, if_pos rfl, if_pos hlt]
    · rw [if_neg hj, if_neg hj]
  refine ⟨h.sized,h.slots,fun j other hother => ?_,fun name j => ?_⟩
  · rw [setPhase, hget] at hother
    split_ifs at hother
    · cases hother
      exact ⟨hsane.pooled,hsane.placed,hsane.owned,hsane.fresh⟩
    · have hold := h.calls j other hother
      exact ⟨hold.pooled,hold.placed,hold.owned,hold.fresh⟩
  · rw [setPhase, hget, hlocks]
    by_cases hj : i = j
    · subst hj
      simp
    · rw [if_neg (Ne.symm hj), if_neg hj]
      exact h.locks name j

/-- A call goes on with the lock it has, or without one. -/
theorem Inv.move (h : Inv sha256 s) {i : Nat} {call : KcptunCall} (hcall : s.calls[i]? = some call)
    {phase : KcptunPhase} (hsane : Sane sha256 s { call with phase := phase })
    (hholds : phase.holds = call.phase.holds) : Inv sha256 (s.setPhase i call phase) := by
  refine h.setCall hcall hsane fun name j => ?_
  have hlock : ({ call with phase := phase } : KcptunCall).lock sha256 = call.lock sha256 := by
    rw [KcptunCall.lock, KcptunCall.lock, hholds]
    rfl
  by_cases hj : j = i
  · subst hj
    rw [if_pos rfl, hlock, h.locks]
    constructor
    · rintro ⟨other,hother,hname⟩
      rw [hcall] at hother
      cases hother
      exact hname
    · exact fun hname => ⟨call,hcall,hname⟩
  · rw [if_neg hj]

theorem Inv.lock (h : Inv sha256 s) {i : Nat} {call : KcptunCall} (hcall : s.calls[i]? = some call)
    {phase : KcptunPhase} {idx : Nat} (hsane : Sane sha256 s { call with phase := phase })
    (hholds : phase.holds = some idx) (hnone : call.phase.holds = none)
    (hfree : s.creates (createLockName (call.key sha256) idx) = none) :
    Inv sha256 ((s.acquire i (createLockName (call.key sha256) idx)).setPhase i call phase) := by
  refine h.setCall hcall hsane fun name j => ?_
  have hlock : ({ call with phase := phase } : KcptunCall).lock sha256 =
      some (createLockName (call.key sha256) idx) := by
    rw [KcptunCall.lock, hholds]
    rfl
  have hown : ∀ name, s.creates name ≠ some i := by
    intro name hname
    obtain ⟨other,hother,hheld⟩ := (h.locks name i).mp hname
    rw [hcall] at hother
    cases hother
    rw [KcptunCall.lock, hnone] at hheld
    cases hheld
  by_cases hname : name = createLockName (call.key sha256) idx
  · subst hname
    rw [Function.update_self, hlock]
    by_cases hj : j = i
    · subst hj
      simp
    · rw [if_neg hj, hfree]
      simp [Ne.symm hj]
  · rw [Function.update_of_ne hname, hlock]
    by_cases hj : j = i
    · subst hj
      rw [if_pos rfl]
      exact iff_of_false (hown name) fun heq => hname (Option.some.inj heq).symm
    · rw [if_neg hj]

theorem Inv.unlock (h : Inv sha256 s) {i : Nat} {call : KcptunCall} (hcall : s.calls[i]? = some call)
    {phase : KcptunPhase} (hsane : Sane sha256 s { call with phase := phase })
    (hholds : phase.holds = none) :
    Inv sha256 ((s.release (call.lock sha256)).setPhase i call phase) := by
  have hnone : ({ call with phase := phase } : KcptunCall).lock sha256 = none := by
    rw [KcptunCall.lock, hholds]
    rfl
  have hheld : ∀ name, s.creates name = some i ↔ call.lock sha256 = some name := by
    intro name
    rw [h.locks]
    constructor
    · rintro ⟨other,hother,hname⟩
      rw [hcall] at hother
      cases hother
      exact hname
    · exact fun hname => ⟨call,hcall,hname⟩
  cases hlock : call.lock sha256 with
  | none =>
    refine h.setCall hcall hsane fun name j => ?_
    rw [hnone]
    by_cases hj : j = i
    · subst hj
      rw [if_pos rfl, hheld, hlock]
    · rw [if_neg hj]
  | some held =>
    refine h.setCall hcall hsane fun name j => ?_
    rw [hnone]
    by_cases hname : name = held
    · subst hname
      rw [Function.update_self]
      refine iff_of_false nofun ?_
      by_cases hj : j = i
      · subst hj
        simp
      · rw [if_neg hj, (hheld name).mpr hlock]
        simp [Ne.symm hj]
    · rw [Function.update_of_ne hname]
      by_cases hj : j = i
      · subst hj
        rw [if_pos rfl, hheld, hlock]
        simp [Ne.symm hname]
      · rw [if_neg hj]

/-! ## Calls that come, sessions that end, time that passes -/

theorem Inv.enter (h : Inv sha256 s) {call : KcptunCall} (hsane : Sane sha256 s call)
    (hholds : call.phase.holds = none) : Inv sha256 { s with calls := s.calls ++ [call] } := by
  have hget : ∀ (i : Nat) (other : KcptunCall), (s.calls ++ [call])[i]? = some other ↔
      s.calls[i]? = some other ∨ i = s.calls.length ∧ other = call := by
    intro i other
    rcases Nat.lt_trichotomy i s.calls.length with hlt | heq | hgt
    · rw [List.getElem?_append_left hlt]
      simp [Nat.ne_of_lt hlt]
    · subst heq
      simp [eq_comm]
    · rw [List.getElem?_eq_none (by simpa using Nat.succ_le_of_lt hgt), List.getElem?_eq_none hgt.le]
      simp [Nat.ne_of_gt hgt]
  refine ⟨h.sized,h.slots,fun i other hother => ?_,fun name i => ?_⟩
  · rcases (hget i other).mp hother with hold | ⟨_,rfl⟩
    · have hsane' := h.calls i other hold
      exact ⟨hsane'.pooled,hsane'.placed,hsane'.owned,hsane'.fresh⟩
    · exact ⟨hsane.pooled,hsane.placed,hsane.owned,hsane.fresh⟩
  · rw [h.locks]
    refine exists_congr fun other => ?_
    rw [hget]
    constructor
    · rintro ⟨hother,hname⟩
      exact ⟨.inl hother,hname⟩
    · rintro ⟨hother | ⟨_,rfl⟩,hname⟩
      · exact ⟨hother,hname⟩
      · rw [KcptunCall.lock, hholds] at hname
        cases hname

/-- Sessions are only added and only end, and time goes on. -/
theorem Inv.later (h : Inv sha256 s) {sessions : List KcptunSession} {now : Nat}
    (hmade : ∀ session key, MadeFor sha256 s session key →
      MadeFor sha256 { s with sessions := sessions } session key)
    (hstale : ∀ slot : KcptunPoolSlot, (∃ key, MadeFor sha256 s slot.session key) →
      slot.reusable s.isClosed s.now = false →
      slot.reusable (isClosed { s with sessions := sessions }) now = false) :
    Inv sha256 { s with sessions := sessions, now := now } :=
  ⟨h.sized,fun key idx slot hslot => hmade _ _ (h.slots key idx slot hslot),
    fun i call hcall =>
      have hsane := h.calls i call hcall
      ⟨hsane.pooled,hsane.placed,fun session hsession => hmade _ _ (hsane.owned session hsession),
        fun idx hidx slot hslot =>
          hstale slot ⟨_,h.slots _ _ slot hslot⟩ (hsane.fresh idx hidx slot hslot)⟩,
    h.locks⟩

theorem MadeFor.made {session : Nat} {key : List Char} (h : MadeFor sha256 s session key)
    (call : KcptunCall) : MadeFor sha256 (s.made call) session key := by
  obtain ⟨r,hr,hkey⟩ := h
  refine ⟨r,?_,hkey⟩
  rw [KcptunPools.made, List.getElem?_append_left (List.getElem?_eq_some_iff.mp hr).1, hr]

theorem madeFor_made (s : KcptunPools) (call : KcptunCall) :
    MadeFor sha256 (s.made call) s.sessions.length (call.key sha256) :=
  ⟨⟨call.address,call.config,false⟩,List.getElem?_concat_length,rfl⟩

/-- A session that was made before is as closed as it was. -/
theorem Inv.made (h : Inv sha256 s) (call : KcptunCall) : Inv sha256 (s.made call) := by
  refine h.later (fun _ _ hmade => hmade.made call) fun slot hmade hstale => ?_
  obtain ⟨_,r,hr,_⟩ := hmade
  have hclosed : isClosed (s.made call) slot.session = s.isClosed slot.session := by
    rw [isClosed, isClosed, KcptunPools.made,
      List.getElem?_append_left (List.getElem?_eq_some_iff.mp hr).1]
  rw [KcptunPoolSlot.reusable, ← hclosed] at hstale
  exact hstale

theorem getElem?_close (sessions : List KcptunSession) (i j : Nat) :
    (sessions.modify i fun r => { r with closed := true })[j]? =
      (sessions[j]?).map fun r => if i = j then { r with closed := true } else r := by
  rw [List.getElem?_modify]
  rcases sessions[j]? with _ | r
  · rfl
  · by_cases h : i = j <;> simp [h]

theorem Inv.close (h : Inv sha256 s) (i : Nat) : Inv sha256
    { s with sessions := s.sessions.modify i fun r => { r with closed := true } } := by
  refine h.later (fun session key ⟨r,hr,hkey⟩ => ?_) fun slot _ hstale => ?_
  · refine ⟨if i = session then { r with closed := true } else r,?_,?_⟩
    · rw [getElem?_close, hr]
      rfl
    · split_ifs <;> exact hkey
  · rw [KcptunPoolSlot.reusable, Bool.and_eq_false_iff, Bool.not_eq_false'] at hstale ⊢
    refine hstale.imp_left fun hclosed => ?_
    rw [isClosed] at hclosed ⊢
    rw [getElem?_close]
    cases hr : s.sessions[slot.session]? with
    | none => rfl
    | some r =>
      rw [hr] at hclosed
      by_cases hi : i = slot.session
      · simp [hi]
      · simpa [hi] using hclosed

theorem Inv.tick (h : Inv sha256 s) (n : Nat) : Inv sha256 { s with now := s.now + n } := by
  refine h.later (fun _ _ hmade => hmade) fun slot _ hstale => ?_
  rw [KcptunPoolSlot.reusable, Bool.and_eq_false_iff] at hstale ⊢
  refine hstale.imp id fun hpast => ?_
  cases hexpires : slot.expiresAt with
  | none =>
    rw [hexpires] at hpast
    cases hpast
  | some expires =>
    rw [hexpires, Option.all_some] at hpast
    have hle : expires ≤ s.now := Nat.not_lt.mp (of_decide_eq_false hpast)
    exact decide_eq_false (Nat.not_lt.mpr (Nat.le_trans hle (Nat.le_add_right _ _)))

/-! ## Pools that are entered and filled -/

theorem Sized.update {pools : PoolMap} (h : Sized sha256 pools) (config : AppliedConfig)
    (address : SocketAddr) {pool : KcptunSessionPool}
    (hlen : pool.sessions.length = config.config.conn) :
    Sized sha256 (Function.update pools (config.config.poolKey sha256 address) (some pool)) := by
  intro config' address' pool' hpool'
  by_cases hkey : config'.config.poolKey sha256 address' = config.config.poolKey sha256 address
  · rw [hkey, Function.update_self] at hpool'
    cases hpool'
    obtain ⟨_,hsame⟩ := (poolKey_eq_iff sha256 _ _ _ _).mp hkey
    exact hlen.trans (congrArg KcptunConfig.conn hsame.rest).symm
  · rw [Function.update_of_ne hkey] at hpool'
    exact h config' address' pool' hpool'

theorem Inv.age (h : Inv sha256 s) {pools : PoolMap} (haged : Aged s.isClosed s.now s.pools pools)
    (hsized : Sized sha256 pools) : Inv sha256 { s with pools := pools } := by
  have hslot : ∀ key idx, ∀ slot ∈ PoolMap.slotAt pools key idx,
      slot ∈ PoolMap.slotAt s.pools key idx := by
    intro key idx slot hslot
    rcases haged.slots key idx with heq | ⟨hnone,_⟩
    · rwa [heq] at hslot
    · rw [hnone] at hslot
      cases hslot
  refine ⟨hsized,fun key idx slot hmem => h.slots key idx slot (hslot key idx slot hmem),
    fun i call hcall => ?_,h.locks⟩
  have hsane := h.calls i call hcall
  obtain ⟨pool,hpool⟩ := hsane.pooled
  obtain ⟨pool',hpool',_⟩ := haged.kept _ pool hpool
  exact ⟨⟨pool',hpool'⟩,hsane.placed,hsane.owned,
    fun idx hidx slot hmem => hsane.fresh idx hidx slot (hslot _ idx slot hmem)⟩

theorem Sized.retained (h : Sized sha256 s.pools) (config : KcptunConfig) :
    Sized sha256 (s.retained config) := by
  intro config' address' pool' hpool'
  rw [retained_eq, Option.map_eq_some_iff] at hpool'
  obtain ⟨pool,hpool,rfl⟩ := hpool'
  rw [KcptunSessionPool.length_scavenge]
  exact h config' address' pool hpool

theorem length_entered (s : KcptunPools) (pool : Option KcptunSessionPool) (config : KcptunConfig) :
    (s.entered pool config).sessions.length = config.conn := by
  rw [entered]
  split_ifs with hlen
  · exact List.length_replicate
  · exact not_not.mp hlen

/-- A pool that is there is entered as it is. -/
theorem entered_some {pool : KcptunSessionPool} {config : KcptunConfig}
    (h : pool.sessions.length = config.conn) : s.entered (some pool) config = pool :=
  if_neg (not_not.mpr h)

theorem entered_aged (h : Sized sha256 s.pools) (config : AppliedConfig) (address : SocketAddr)
    (rr : UInt64) : let key := config.config.poolKey sha256 address
    let pool := (s.entered (s.pools key) config.config).scavenge s.isClosed s.now
    Aged s.isClosed s.now s.pools (Function.update s.pools key (some { pool with rr := rr })) := by
  intro key pool
  cases hpool : s.pools key with
  | some old =>
    have hentered : pool = old.scavenge s.isClosed s.now := by
      rw [← entered_some (s := s) (h config address old hpool), ← hpool]
    rw [hentered]
    exact .scavenge hpool rr
  | none =>
    refine .update (fun other hother => ?_) fun idx => .inl ?_
    · rw [hpool] at hother
      cases hother
    · have hnew : s.entered (s.pools key) config.config = .new config.config.conn s.now := by
        rw [hpool, entered]
        split_ifs <;> rfl
      have hslot : pool.slotAt idx = none := by
        rw [KcptunSessionPool.slotAt_scavenge, hnew, KcptunSessionPool.slotAt_new]
        rfl
      rw [PoolMap.slotAt, hpool]
      exact hslot

theorem setPool_pools (s : KcptunPools) (key : List Char) (pool : KcptunSessionPool) :
    (s.setPool key pool).pools = Function.update s.pools key (some pool) := rfl

theorem setPool_self {key : List Char} {pool : KcptunSessionPool} (h : s.pools key = some pool) :
    s.setPool key pool = s := by
  rw [setPool, ← h, Function.update_eq_self]

theorem createLockName_inj {key key' : List Char} {idx idx' : Nat}
    (h : createLockName key idx = createLockName key' idx') : key = key' ∧ idx = idx' := by
  have hplain : ∀ n, ':' ∉ natText n := fun n => not_mem_natText (by decide) n
  have hjoined : joined ':' key [natText idx] = joined ':' key' [natText idx'] := by
    rw [joined_cons, joined_nil, joined_cons, joined_nil]
    exact h
  have hpieces : ∀ piece ∈ [natText idx] ++ [natText idx'], ':' ∉ piece := by simp [hplain]
  have hlen : [natText idx].length = [natText idx'].length :=
    List.length_singleton.trans List.length_singleton.symm
  obtain ⟨hkey,hidx⟩ := joined_inj_behind hlen hpieces hjoined
  exact ⟨hkey,natText_inj (List.cons.inj hidx).1⟩

/-- No two calls are behind one create lock. -/
theorem Inv.alone (h : Inv sha256 s) {i j : Nat} {call call' : KcptunCall}
    (hcall : s.calls[i]? = some call) (hcall' : s.calls[j]? = some call')
    (hkey : call.key sha256 = call'.key sha256) {idx : Nat} (hidx : call.phase.holds = some idx)
    (hidx' : call'.phase.holds = some idx) : i = j := by
  have hlock : call.lock sha256 = some (createLockName (call.key sha256) idx) := by
    rw [KcptunCall.lock, hidx]
    rfl
  have hlock' : call'.lock sha256 = some (createLockName (call.key sha256) idx) := by
    rw [KcptunCall.lock, hidx', hkey]
    rfl
  have hi := (h.locks _ i).mpr ⟨call,hcall,hlock⟩
  have hj := (h.locks _ j).mpr ⟨call',hcall',hlock'⟩
  exact Option.some.inj (hi.symm.trans hj)

theorem checked_holds {phase : KcptunPhase} {idx : Nat} (h : idx ∈ phase.checked) :
    phase.holds = some idx := by
  cases phase <;> first | exact h | cases h

/-- What is put into a pool was made for it, and nobody counts on the place being empty. -/
theorem Inv.setSlot (h : Inv sha256 s) {key : List Char} {pool : KcptunSessionPool} {idx : Nat}
    {slot : KcptunPoolSlot} (hpool : s.pools key = some pool) (hidx : idx < pool.sessions.length)
    (hmade : MadeFor sha256 s slot.session key)
    (hquiet : ∀ (i : Nat) (call : KcptunCall), s.calls[i]? = some call → call.key sha256 = key →
      idx ∉ call.phase.checked) : Inv sha256 (s.setPool key (pool.setSlot idx slot)) := by
  have hslot : ∀ key' idx', PoolMap.slotAt (s.setPool key (pool.setSlot idx slot)).pools key' idx' =
      if key' = key ∧ idx' = idx then some slot else PoolMap.slotAt s.pools key' idx' := by
    intro key' idx'
    rw [setPool_pools, slotAt_update]
    by_cases hkey : key' = key
    · subst hkey
      rw [if_pos rfl, KcptunSessionPool.slotAt_setSlot hidx, PoolMap.slotAt, hpool]
      by_cases heq : idx = idx'
      · subst heq
        simp
      · rw [if_neg heq, if_neg fun hboth => heq hboth.2.symm]
        rfl
    · rw [if_neg hkey, if_neg fun hboth => hkey hboth.1]
  refine ⟨?_,fun key' idx' other hother => ?_,fun i call hcall => ?_,h.locks⟩
  · intro config address pool' hpool'
    by_cases hkey : config.config.poolKey sha256 address = key
    · rw [hkey, setPool_pools, Function.update_self] at hpool'
      cases hpool'
      rw [KcptunSessionPool.setSlot, List.length_set]
      exact h.sized config address pool (hkey ▸ hpool)
    · rw [setPool_pools, Function.update_of_ne hkey] at hpool'
      exact h.sized config address pool' hpool'
  · rw [hslot] at hother
    split_ifs at hother with hboth
    · cases hother
      rw [hboth.1]
      exact hmade
    · exact h.slots key' idx' other hother
  · have hsane := h.calls i call hcall
    refine ⟨?_,hsane.placed,hsane.owned,fun idx' hidx' other hother => ?_⟩
    · obtain ⟨old,hold⟩ := hsane.pooled
      by_cases hkey : call.key sha256 = key
      · exact ⟨_,by rw [setPool_pools, hkey, Function.update_self]⟩
      · exact ⟨old,by rw [setPool_pools, Function.update_of_ne hkey, hold]⟩
    · rw [hslot] at hother
      split_ifs at hother with hboth
      · obtain ⟨hkey,rfl⟩ := hboth
        exact absurd hidx' (hquiet i call hcall hkey)
      · exact hsane.fresh idx' hidx' other hother

/-! ## What a step may do -/

/-- The session goes to the address of the call, under a configuration that the pool key does not
tell from the call's. -/
def Serves (sha256 : Bytes → Bytes) (s : KcptunPools) (session : Nat) (call : KcptunCall) : Prop :=
  ∃ r, s.sessions[session]? = some r ∧ r.address = call.address ∧
    r.config.config.SamePool sha256 call.config.config

theorem MadeFor.serves {session : Nat} {call : KcptunCall}
    (h : MadeFor sha256 s session (call.key sha256)) : Serves sha256 s session call := by
  obtain ⟨r,hr,hkey⟩ := h
  exact ⟨r,hr,(poolKey_eq_iff sha256 _ _ _ _).mp hkey⟩

/-- A session out of the pool is the one at the place of the call, and neither closed nor expired.
A stream is one of a session for the call. Only an expiry that no instant can say panics. -/
def Warranted (sha256 : Bytes → Bytes) (latest : Nat) (s s' : KcptunPools) : KcptunOutput → Prop
  | .pooled i session => ∃ call idx slot, s'.calls[i]? = some call ∧ Serves sha256 s' session call ∧
      PoolMap.slotAt s'.pools (call.key sha256) idx = some slot ∧ slot.session = session ∧
      slot.reusable s.isClosed s.now
  | .stream i session => ∃ call, s'.calls[i]? = some call ∧ Serves sha256 s' session call
  | .failed i => ∃ call, s.calls[i]? = some call
  | .panicked i => ∃ call, s.calls[i]? = some call ∧ 0 < call.config.config.autoExpire ∧
      latest < s.now + seconds call.config.config.autoExpire +
        seconds (max call.config.config.scavengeTtl 1)

structure Orderly (sha256 : Bytes → Bytes) (latest : Nat) (s : KcptunPools)
    (r : KcptunPools × List KcptunOutput) : Prop where
  kept : ∀ key pool, s.pools key = some pool →
    ∃ pool', r.1.pools key = some pool' ∧ pool'.sessions.length = pool.sessions.length
  slots : ∀ key idx slot, PoolMap.slotAt s.pools key idx = some slot →
    slot.reusable s.isClosed s.now →
    PoolMap.slotAt r.1.pools key idx = some slot ∨
      ∃ (i : Nat) (call : KcptunCall) (session : Nat), s.calls[i]? = some call ∧
        call.key sha256 = key ∧ call.phase = .restoring idx session
  outputs : ∀ output ∈ r.2, Warranted sha256 latest s r.1 output

variable {latest : Nat} {r : KcptunPools × List KcptunOutput}

theorem Orderly.of_aged (haged : Aged s.isClosed s.now s.pools r.1.pools)
    (houtputs : ∀ output ∈ r.2, Warranted sha256 latest s r.1 output) :
    Orderly sha256 latest s r := by
  refine ⟨haged.kept,fun key idx slot hslot hreusable => .inl ?_,houtputs⟩
  rcases haged.slots key idx with heq | ⟨_,hold⟩
  · rw [heq, hslot]
  · rw [hold slot hslot] at hreusable
    cases hreusable

theorem Orderly.of_pools (hpools : r.1.pools = s.pools)
    (houtputs : ∀ output ∈ r.2, Warranted sha256 latest s r.1 output) :
    Orderly sha256 latest s r :=
  .of_aged (hpools ▸ .refl _ _ _) houtputs

/-- One slot is filled. What was there could not be used again, or its stream could not be opened. -/
theorem Orderly.of_stored {i : Nat} {call : KcptunCall} (hcall : s.calls[i]? = some call)
    {pool : KcptunSessionPool} {idx : Nat} {slot : KcptunPoolSlot}
    (hpool : s.pools (call.key sha256) = some pool) (hidx : idx < pool.sessions.length)
    (hpools : r.1.pools = (s.setPool (call.key sha256) (pool.setSlot idx slot)).pools)
    (hwhy : (∃ session, call.phase = .restoring idx session) ∨
      ∀ old ∈ PoolMap.slotAt s.pools (call.key sha256) idx, old.reusable s.isClosed s.now = false)
    (houtputs : ∀ output ∈ r.2, Warranted sha256 latest s r.1 output) :
    Orderly sha256 latest s r := by
  refine ⟨fun key old hold => ?_,fun key idx' old hold hreusable => ?_,houtputs⟩
  · rw [hpools, setPool_pools]
    by_cases hkey : key = call.key sha256
    · subst hkey
      rw [hpool] at hold
      cases hold
      exact ⟨_,Function.update_self ..,List.length_set⟩
    · exact ⟨old,by rw [Function.update_of_ne hkey, hold],rfl⟩
  · rw [hpools, setPool_pools, slotAt_update]
    by_cases hkey : key = call.key sha256
    · subst hkey
      rw [if_pos rfl, KcptunSessionPool.slotAt_setSlot hidx]
      by_cases heq : idx = idx'
      · subst heq
        rcases hwhy with ⟨session,hphase⟩ | hstale
        · exact .inr ⟨i,call,session,hcall,rfl,hphase⟩
        · rw [hstale old hold] at hreusable
          cases hreusable
      · rw [if_neg heq]
        rw [PoolMap.slotAt, hpool] at hold
        exact .inl hold
    · rw [if_neg hkey]
      exact .inl hold

/-! ## The steps of a call -/

theorem sessionAt_some {pool : KcptunSessionPool} {closed : Nat → Bool} {now idx session : Nat}
    (h : pool.sessionAt closed now idx = some session) :
    ∃ slot, pool.slotAt idx = some slot ∧ slot.session = session ∧ slot.reusable closed now := by
  rw [KcptunSessionPool.sessionAt, Option.map_eq_some_iff] at h
  obtain ⟨slot,hslot,hsession⟩ := h
  obtain ⟨hat,hreusable⟩ := Option.filter_eq_some_iff.mp hslot
  exact ⟨slot,hat,hsession,hreusable⟩

theorem sessionAt_none {pool : KcptunSessionPool} {closed : Nat → Bool} {now idx : Nat}
    (h : pool.sessionAt closed now idx = none) :
    ∀ slot ∈ pool.slotAt idx, slot.reusable closed now = false := by
  intro slot hslot
  rw [KcptunSessionPool.sessionAt, Option.map_eq_none_iff, Option.mem_def.mp hslot] at h
  cases hreusable : slot.reusable closed now with
  | false => rfl
  | true =>
    rw [Option.filter_some, hreusable] at h
    cases h

theorem opens_orderly (h : Inv sha256 s) (address : SocketAddr) (config : AppliedConfig) :
    Inv sha256 (s.opens sha256 address config).1 ∧
      Orderly sha256 latest s (s.opens sha256 address config) := by
  let key := config.config.poolKey sha256 address
  let s₁ : KcptunPools := { s with pools := s.retained config.config }
  let pool := (s₁.entered (s₁.pools key) config.config).scavenge s.isClosed s.now
  let idx := pool.rr.toNat % pool.sessions.length
  let s₂ := s₁.setPool key { pool with rr := pool.rr + 1 }
  have hlen : pool.sessions.length = config.config.conn :=
    KcptunSessionPool.length_scavenge.trans (length_entered s₁ _ config.config)
  have hsized : Sized sha256 s₁.pools := h.sized.retained config.config
  have haged : Aged s.isClosed s.now s.pools s₂.pools :=
    (retained_aged s config.config).trans (entered_aged (s := s₁) hsized config address (pool.rr + 1))
  have hinv : Inv sha256 s₂ := h.age haged (hsized.update config address hlen)
  have hidx : idx < config.config.conn := hlen ▸ Nat.mod_lt _ (hlen ▸ config.conn.1)
  have hpool : s₂.pools key = some { pool with rr := pool.rr + 1 } := Function.update_self ..
  have hne : pool.sessions.length ≠ 0 := hlen ▸ Nat.pos_iff_ne_zero.mp config.conn.1
  have hopens : s.opens sha256 address config =
      (pool.sessionAt s.isClosed s.now idx).elim
        ({ s₂ with calls := s.calls ++ [⟨address,config,.waiting idx⟩] }, [])
        fun session => ({ s₂ with calls := s.calls ++ [⟨address,config,.opening idx session⟩] },
          [.pooled s.calls.length session]) := by
    refine (if_neg hne).trans ?_
    split
    next session hsome =>
      have hsession : pool.sessionAt s.isClosed s.now idx = some session := hsome
      rw [hsession]
      rfl
    next hnone =>
      have hsession : pool.sessionAt s.isClosed s.now idx = none := hnone
      rw [hsession]
      rfl
  rw [hopens]
  cases hsession : pool.sessionAt s.isClosed s.now idx with
  | some session =>
    obtain ⟨slot,hslot,rfl,hreusable⟩ := sessionAt_some hsession
    have hat : PoolMap.slotAt s₂.pools key idx = some slot := by
      rw [PoolMap.slotAt, hpool]
      exact hslot
    have hmade : MadeFor sha256 s₂ slot.session key := hinv.slots key idx slot hat
    have hsane : Sane sha256 s₂ ⟨address,config,.opening idx slot.session⟩ :=
      ⟨⟨_,hpool⟩,by rintro _ ⟨⟩; exact hidx,by rintro _ ⟨⟩; exact hmade,by rintro _ ⟨⟩⟩
    refine ⟨hinv.enter hsane rfl,.of_aged haged fun output houtput => ?_⟩
    rw [List.mem_singleton.mp houtput]
    exact ⟨_,idx,slot,List.getElem?_concat_length,MadeFor.serves hmade,hat,rfl,hreusable⟩
  | none =>
    have hsane : Sane sha256 s₂ ⟨address,config,.waiting idx⟩ :=
      ⟨⟨_,hpool⟩,by rintro _ ⟨⟩; exact hidx,by rintro _ ⟨⟩,by rintro _ ⟨⟩⟩
    exact ⟨hinv.enter hsane rfl,.of_aged haged (List.forall_mem_nil _)⟩

variable {i : Nat} {call : KcptunCall}

theorem getElem?_setPhase (hcall : s.calls[i]? = some call) (phase : KcptunPhase) :
    (s.setPhase i call phase).calls[i]? = some { call with phase := phase } :=
  List.getElem?_set_self (List.getElem?_eq_some_iff.mp hcall).1

/-- A call goes on to where it needs no more than it had. -/
theorem Sane.goes (h : Sane sha256 s call) {before phase : KcptunPhase} (hphase : call.phase = before)
    (hplace : ∀ idx ∈ phase.place, idx ∈ before.place)
    (hsession : ∀ session ∈ phase.session, session ∈ before.session)
    (hchecked : phase.checked = none) : Sane sha256 s { call with phase := phase } :=
  ⟨h.pooled,fun idx hidx => h.placed idx (hphase ▸ hplace idx hidx),
    fun session hmem => h.owned session (hphase ▸ hsession session hmem),
    fun idx hidx => by
      rw [hchecked] at hidx
      cases hidx⟩

theorem Inv.ends (h : Inv sha256 s) (hcall : s.calls[i]? = some call) :
    Inv sha256 ((s.release (call.lock sha256)).setPhase i call .finished) :=
  h.unlock hcall ((h.calls i call hcall).goes rfl nofun nofun rfl) rfl

theorem Inv.pool (h : Inv sha256 s) (hcall : s.calls[i]? = some call) :
    ∃ pool, s.pools (call.key sha256) = some pool ∧
      pool.sessions.length = call.config.config.conn := by
  obtain ⟨pool,hpool⟩ := (h.calls i call hcall).pooled
  exact ⟨pool,hpool,h.sized call.config call.address pool hpool⟩

theorem release_pools (name : Option (List Char)) : (s.release name).pools = s.pools := by
  cases name <;> rfl

theorem release_sessions (name : Option (List Char)) : (s.release name).sessions = s.sessions := by
  cases name <;> rfl

theorem release_calls (name : Option (List Char)) : (s.release name).calls = s.calls := by
  cases name <;> rfl

/-- A call that waits for its create lock. -/
theorem waits_orderly (h : Inv sha256 s) (hcall : s.calls[i]? = some call) {idx : Nat}
    {before phase : KcptunPhase} (hphase : call.phase = before) (hnone : before.holds = none)
    (hplace : ∀ idx ∈ phase.place, idx ∈ before.place) (hsession : phase.session = none)
    (hchecked : phase.checked = none) (hholds : phase.holds = some idx) :
    let name := createLockName (call.key sha256) idx
    let r : KcptunPools × List KcptunOutput :=
      if s.creates name = none then ((s.acquire i name).setPhase i call phase, []) else (s, [])
    Inv sha256 r.1 ∧ Orderly sha256 latest s r := by
  intro name r
  by_cases hfree : s.creates name = none
  · have hr : r = ((s.acquire i name).setPhase i call phase, []) := if_pos hfree
    have hsane := (h.calls i call hcall).goes hphase hplace
      (fun session hmem => by rw [hsession] at hmem; cases hmem) hchecked
    rw [hr]
    exact ⟨h.lock hcall hsane hholds (hphase ▸ hnone) hfree,.of_pools rfl nofun⟩
  · have hr : r = (s, []) := if_neg hfree
    rw [hr]
    exact ⟨h,.of_pools rfl nofun⟩

theorem fails_orderly (h : Inv sha256 s) (hcall : s.calls[i]? = some call) :
    let r := ((s.release (call.lock sha256)).setPhase i call .finished, [KcptunOutput.failed i])
    Inv sha256 r.1 ∧ Orderly sha256 latest s r := by
  refine ⟨h.ends hcall,.of_pools (release_pools _) fun output houtput => ?_⟩
  rw [List.mem_singleton.mp houtput]
  exact ⟨call,hcall⟩

/-- A stream is opened on the session that the call has. -/
theorem streams_orderly (h : Inv sha256 s) (hcall : s.calls[i]? = some call) {session : Nat}
    (hsession : call.phase.session = some session) :
    let r := ((s.release (call.lock sha256)).setPhase i call .finished,
      [KcptunOutput.stream i session])
    Inv sha256 r.1 ∧ Orderly sha256 latest s r := by
  refine ⟨h.ends hcall,.of_pools (release_pools _) fun output houtput => ?_⟩
  rw [List.mem_singleton.mp houtput]
  obtain ⟨r,hr,hserves⟩ := MadeFor.serves ((h.calls i call hcall).owned session hsession)
  refine ⟨_,getElem?_setPhase (by rw [release_calls, hcall]) _,r,?_,hserves⟩
  rw [setPhase, release_sessions, hr]

theorem checking_orderly (h : Inv sha256 s) (hcall : s.calls[i]? = some call) {idx : Nat}
    (hphase : call.phase = .checking idx) (ok : Bool) :
    Inv sha256 (s.runs sha256 latest i call ok).1 ∧
      Orderly sha256 latest s (s.runs sha256 latest i call ok) := by
  obtain ⟨pool,hpool,hlen⟩ := h.pool hcall
  have hsane := h.calls i call hcall
  let s₁ := s.setPool (call.key sha256) (pool.scavenge s.isClosed s.now)
  have haged : Aged s.isClosed s.now s.pools s₁.pools := Aged.scavenge hpool pool.rr
  have hinv : Inv sha256 s₁ := h.age haged
    (h.sized.update call.config call.address (KcptunSessionPool.length_scavenge.trans hlen))
  have hpool₁ : s₁.pools (call.key sha256) = some (pool.scavenge s.isClosed s.now) :=
    Function.update_self ..
  have hslot : PoolMap.slotAt s₁.pools (call.key sha256) idx =
      (pool.scavenge s.isClosed s.now).slotAt idx := by
    rw [PoolMap.slotAt, hpool₁]
    rfl
  have hruns : s.runs sha256 latest i call ok =
      ((pool.scavenge s.isClosed s.now).sessionAt s.isClosed s.now idx).elim
        (s₁.setPhase i call (.creating idx), [])
        fun session => ((s₁.release (call.lock sha256)).setPhase i call (.opening idx session),
          [.pooled i session]) := by
    rw [runs, hphase]
    simp only [hpool]
    rw [if_neg (not_not.mpr hlen)]
    split
    next session hsome =>
      have hsession : (pool.scavenge s.isClosed s.now).sessionAt s.isClosed s.now idx = some session :=
        hsome
      rw [hsession]
      rfl
    next hnone =>
      have hsession : (pool.scavenge s.isClosed s.now).sessionAt s.isClosed s.now idx = none := hnone
      rw [hsession]
      rfl
  rw [hruns]
  cases hsession : (pool.scavenge s.isClosed s.now).sessionAt s.isClosed s.now idx with
  | some session =>
    obtain ⟨slot,hat,rfl,hreusable⟩ := sessionAt_some hsession
    rw [← hslot] at hat
    rw [Option.elim_some]
    have hmade : MadeFor sha256 s₁ slot.session (call.key sha256) := hinv.slots _ idx slot hat
    have hsane₁ : Sane sha256 s₁ { call with phase := .opening idx slot.session } :=
      ⟨⟨_,hpool₁⟩,by rintro _ ⟨⟩; exact hsane.placed idx (by rw [hphase]; rfl),
        by rintro _ ⟨⟩; exact hmade,by rintro _ ⟨⟩⟩
    refine ⟨hinv.unlock hcall hsane₁ rfl,.of_aged ?_ fun output houtput => ?_⟩
    · rw [setPhase, release_pools]
      exact haged
    · rw [List.mem_singleton.mp houtput]
      obtain ⟨r,hr,hserves⟩ := MadeFor.serves hmade
      refine ⟨_,idx,slot,getElem?_setPhase (by rw [release_calls]; exact hcall) _,⟨r,?_,hserves⟩,?_,
        rfl,hreusable⟩
      · rw [setPhase, release_sessions, hr]
      · rw [setPhase, release_pools]
        exact hat
  | none =>
    have hsane₁ : Sane sha256 s₁ { call with phase := .creating idx } :=
      ⟨⟨_,hpool₁⟩,by rintro _ ⟨⟩; exact hsane.placed idx (by rw [hphase]; rfl),by rintro _ ⟨⟩,by
        rintro _ ⟨⟩ slot hat
        exact sessionAt_none hsession slot (hslot ▸ hat)⟩
    refine ⟨hinv.move hcall hsane₁ (by rw [hphase]; rfl),.of_aged haged (List.forall_mem_nil _)⟩

/-- A session is made for the call that makes it. -/
theorem makes_orderly (h : Inv sha256 s) (hcall : s.calls[i]? = some call)
    {before phase : KcptunPhase} (hphase : call.phase = before)
    (hplace : ∀ idx ∈ phase.place, idx ∈ before.place)
    (hsession : phase.session = some s.sessions.length)
    (hchecked : ∀ idx ∈ phase.checked, idx ∈ before.checked) (hholds : phase.holds = before.holds) :
    let r : KcptunPools × List KcptunOutput := ((s.made call).setPhase i call phase, [])
    Inv sha256 r.1 ∧ Orderly sha256 latest s r := by
  have hmade : Inv sha256 (s.made call) := h.made call
  have hsane : Sane sha256 (s.made call) call := hmade.calls i call hcall
  have hgoes : Sane sha256 (s.made call) { call with phase := phase } := by
    refine ⟨hsane.pooled,fun idx hidx => hsane.placed idx (hphase ▸ hplace idx hidx),
      fun session hmem => ?_,fun idx hidx => hsane.fresh idx (hphase ▸ hchecked idx hidx)⟩
    rw [hsession] at hmem
    cases hmem
    exact madeFor_made s call
  exact ⟨hmade.move hcall hgoes (hphase ▸ hholds),.of_pools rfl nofun⟩

theorem new?_session {now session : Nat} {config : KcptunConfig} {slot : KcptunPoolSlot}
    (h : KcptunPoolSlot.new? latest now session config = some slot) : slot.session = session := by
  rw [KcptunPoolSlot.new?] at h
  split at h
  · dsimp only at h
    split at h <;> cases h
    rfl
  · cases h
    rfl

theorem new?_eq_none {now session : Nat} {config : KcptunConfig}
    (h : KcptunPoolSlot.new? latest now session config = none) : 0 < config.autoExpire ∧
      latest < now + seconds config.autoExpire + seconds (max config.scavengeTtl 1) := by
  rw [KcptunPoolSlot.new?] at h
  split at h
  next hexpire =>
    dsimp only at h
    split at h
    · cases h
    next hlate => exact ⟨hexpire,Nat.not_le.mp hlate⟩
  · cases h

/-- The holder of the create lock fills the place. -/
theorem Inv.stored (h : Inv sha256 s) (hcall : s.calls[i]? = some call) {idx session : Nat}
    (hplace : idx ∈ call.phase.place) (hholds : call.phase.holds = some idx)
    (hsession : session ∈ call.phase.session) {pool : KcptunSessionPool}
    (hpool : s.pools (call.key sha256) = some pool) (hidx : idx < pool.sessions.length)
    {slot : KcptunPoolSlot} (hslot : slot.session = session) :
    Inv sha256 ((s.setPool (call.key sha256) (pool.setSlot idx slot)).setPhase i call
      (.reopening idx session)) := by
  have hsane := h.calls i call hcall
  have hgoes : Sane sha256 s { call with phase := .reopening idx session } :=
    ⟨hsane.pooled,by rintro _ ⟨⟩; exact hsane.placed idx hplace,
      by rintro _ ⟨⟩; exact hsane.owned session hsession,nofun⟩
  have hmoved : Inv sha256 (s.setPhase i call (.reopening idx session)) :=
    h.move hcall hgoes hholds.symm
  refine hmoved.setSlot hpool hidx (hslot ▸ hsane.owned session hsession) fun j other hother hkey hmem => ?_
  -- another call that found nothing at the place is behind the lock of this one
  by_cases hj : i = j
  · subst hj
    rw [getElem?_setPhase hcall] at hother
    cases hother
    cases hmem
  · rw [setPhase, List.getElem?_set_ne hj] at hother
    exact hj (h.alone hcall hother hkey.symm hholds (checked_holds hmem))

theorem store?_some (s : KcptunPools) {key : List Char} {pool : KcptunSessionPool} {idx session : Nat}
    {config : KcptunConfig} {slot : KcptunPoolSlot} (hidx : idx < pool.sessions.length)
    (hnew : KcptunPoolSlot.new? latest s.now session config = some slot) :
    s.store? latest key pool idx session config = (s.setPool key (pool.setSlot idx slot), true) := by
  rw [store?, hnew]
  exact if_pos hidx

theorem store?_none {key : List Char} {pool : KcptunSessionPool} {idx session : Nat}
    {config : KcptunConfig} (hpool : s.pools key = some pool)
    (hnew : KcptunPoolSlot.new? latest s.now session config = none) :
    s.store? latest key pool idx session config = (s, false) := by
  rw [store?, hnew]
  simp only [setPool_self hpool]

theorem panics_orderly (h : Inv sha256 s) (hcall : s.calls[i]? = some call) {session : Nat}
    (hnew : KcptunPoolSlot.new? latest s.now session call.config.config = none) :
    let r := ((s.release (call.lock sha256)).setPhase i call .finished, [KcptunOutput.panicked i])
    Inv sha256 r.1 ∧ Orderly sha256 latest s r := by
  refine ⟨h.ends hcall,.of_pools (release_pools _) fun output houtput => ?_⟩
  rw [List.mem_singleton.mp houtput]
  exact ⟨call,hcall,new?_eq_none hnew⟩

theorem setPhase_setPhase (name : Option (List Char)) (phase phase' : KcptunPhase) :
    ((s.setPhase i call phase).release name).setPhase i { call with phase := phase } phase' =
      (s.release name).setPhase i call phase' := by
  cases name <;> simp only [release, setPhase, List.set_set]

theorem storing_orderly (h : Inv sha256 s) (hcall : s.calls[i]? = some call) {idx session : Nat}
    (hphase : call.phase = .storing idx session) (ok : Bool) :
    Inv sha256 (s.runs sha256 latest i call ok).1 ∧
      Orderly sha256 latest s (s.runs sha256 latest i call ok) := by
  obtain ⟨pool,hpool,hlen⟩ := h.pool hcall
  have hsane := h.calls i call hcall
  have hplace : idx ∈ call.phase.place := by rw [hphase]; rfl
  have hholds : call.phase.holds = some idx := by rw [hphase]; rfl
  have hsession : session ∈ call.phase.session := by rw [hphase]; rfl
  have hchecked : idx ∈ call.phase.checked := by rw [hphase]; rfl
  have hidx : idx < pool.sessions.length := hlen ▸ hsane.placed idx hplace
  rw [runs, hphase]
  simp only [hpool, entered_some hlen]
  cases hnew : KcptunPoolSlot.new? latest s.now session call.config.config with
  | none =>
    rw [store?_none hpool hnew]
    exact panics_orderly h hcall hnew
  | some slot =>
    rw [store?_some s hidx hnew]
    have hslot := new?_session hnew
    have hstored := h.stored hcall hplace hholds hsession hpool hidx hslot
    have hcall' := getElem?_setPhase (s := s.setPool (call.key sha256) (pool.setSlot idx slot)) hcall
      (.reopening idx session)
    have hgoes : Sane sha256 _ { call with phase := .opening idx session } :=
      (hstored.calls i _ hcall').goes rfl (fun _ hmem => hmem) (fun _ hmem => hmem) rfl
    have hlock : ({ call with phase := .reopening idx session } : KcptunCall).lock sha256 =
        call.lock sha256 := by
      rw [KcptunCall.lock, KcptunCall.lock, hholds]
      rfl
    have hopened := hstored.unlock hcall' hgoes rfl
    rw [hlock, setPhase_setPhase] at hopened
    exact ⟨hopened,.of_stored hcall hpool hidx (release_pools _) (.inr (hsane.fresh idx hchecked)) nofun⟩

theorem restoring_orderly (h : Inv sha256 s) (hcall : s.calls[i]? = some call) {idx session : Nat}
    (hphase : call.phase = .restoring idx session) (ok : Bool) :
    Inv sha256 (s.runs sha256 latest i call ok).1 ∧
      Orderly sha256 latest s (s.runs sha256 latest i call ok) := by
  obtain ⟨pool,hpool,hlen⟩ := h.pool hcall
  have hsane := h.calls i call hcall
  have hplace : idx ∈ call.phase.place := by rw [hphase]; rfl
  have hholds : call.phase.holds = some idx := by rw [hphase]; rfl
  have hsession : session ∈ call.phase.session := by rw [hphase]; rfl
  have hidx : idx < pool.sessions.length := hlen ▸ hsane.placed idx hplace
  rw [runs, hphase]
  simp only [hpool, Option.getD_some, if_pos hlen]
  cases hnew : KcptunPoolSlot.new? latest s.now session call.config.config with
  | none =>
    rw [store?_none hpool hnew]
    exact panics_orderly h hcall hnew
  | some slot =>
    rw [store?_some s hidx hnew]
    exact ⟨h.stored hcall hplace hholds hsession hpool hidx (new?_session hnew),
      .of_stored hcall hpool hidx rfl (.inl ⟨session,hphase⟩) nofun⟩

/-- One step of a call, by where it waits. -/
theorem runs_orderly (h : Inv sha256 s) (hcall : s.calls[i]? = some call) (ok : Bool) :
    Inv sha256 (s.runs sha256 latest i call ok).1 ∧
      Orderly sha256 latest s (s.runs sha256 latest i call ok) := by
  cases hphase : call.phase with
  | waiting idx =>
    rw [runs, hphase]
    exact waits_orderly h hcall hphase rfl (fun _ hmem => hmem) rfl rfl rfl
  | checking idx => exact checking_orderly h hcall hphase ok
  | creating idx =>
    rw [runs, hphase]
    cases ok with
    | true => exact makes_orderly h hcall hphase (fun _ hmem => hmem) rfl (fun _ hmem => hmem) rfl
    | false => exact fails_orderly h hcall
  | storing idx session => exact storing_orderly h hcall hphase ok
  | opening idx session =>
    rw [runs, hphase]
    cases ok with
    | true => exact streams_orderly h hcall (by rw [hphase]; rfl)
    | false =>
      have hgoes : Sane sha256 s { call with phase := .rewaiting idx } :=
        (h.calls i call hcall).goes hphase (fun _ hmem => hmem) nofun rfl
      exact ⟨h.move hcall hgoes (by rw [hphase]; rfl),.of_pools rfl nofun⟩
  | rewaiting idx =>
    rw [runs, hphase]
    exact waits_orderly h hcall hphase rfl (fun _ hmem => hmem) rfl rfl rfl
  | recreating idx =>
    rw [runs, hphase]
    cases ok with
    | true => exact makes_orderly h hcall hphase (fun _ hmem => hmem) rfl nofun rfl
    | false => exact fails_orderly h hcall
  | restoring idx session => exact restoring_orderly h hcall hphase ok
  | reopening idx session =>
    rw [runs, hphase]
    cases ok with
    | true => exact streams_orderly h hcall (by rw [hphase]; rfl)
    | false => exact fails_orderly h hcall
  | finished =>
    rw [runs, hphase]
    exact ⟨h,.of_pools rfl nofun⟩

theorem step_orderly (h : Inv sha256 s) (event : KcptunEvent) :
    Inv sha256 (s.step sha256 latest event).1 ∧
      Orderly sha256 latest s (s.step sha256 latest event) := by
  cases event with
  | «open» address config => exact opens_orderly h address config
  | run i ok =>
    rw [step]
    cases hcall : s.calls[i]? with
    | some call => exact runs_orderly h hcall ok
    | none => exact ⟨h,.of_pools rfl nofun⟩
  | cancel i =>
    rw [step]
    cases hcall : s.calls[i]? with
    | some call => exact ⟨h.ends hcall,.of_pools (release_pools _) nofun⟩
    | none => exact ⟨h,.of_pools rfl nofun⟩
  | close session => exact ⟨h.close session,.of_pools rfl nofun⟩
  | tick n => exact ⟨h.tick n,.of_pools rfl nofun⟩

/-- Every call has its place in a pool of the size that it asks for. -/
def Placed (sha256 : Bytes → Bytes) (s : KcptunPools) : Prop :=
  ∀ (i : Nat) (call : KcptunCall), s.calls[i]? = some call →
    ∃ pool, s.pools (call.key sha256) = some pool ∧
      pool.sessions.length = call.config.config.conn ∧
      ∀ idx ∈ call.phase.place, idx < pool.sessions.length

/-- No two calls are behind the create lock of one place of one pool. -/
def Alone (sha256 : Bytes → Bytes) (s : KcptunPools) : Prop :=
  ∀ (i j : Nat) (call call' : KcptunCall) (idx : Nat), s.calls[i]? = some call →
    s.calls[j]? = some call' → call.key sha256 = call'.key sha256 →
    call.phase.holds = some idx → call'.phase.holds = some idx → i = j

/-- Whatever comes, in whatever order: every step is an orderly one, and the calls are each in
their place and alone behind their create locks. -/
theorem kcptun_sessions (sha256 : Bytes → Bytes) (latest : Nat) (events : List KcptunEvent) :
    Meets (step sha256 latest) (fun s event => Orderly sha256 latest s (s.step sha256 latest event))
        new events ∧
      Placed sha256 (run (step sha256 latest) new events).1 ∧
      Alone sha256 (run (step sha256 latest) new events).1 := by
  have hall : Meets (step sha256 latest) (fun _ _ => True) new events :=
    meets_of_forall (fun _ _ _ => trivial) _
  have hinv : Inv sha256 (run (step sha256 latest) new events).1 :=
    @run_invariant _ _ _ _ (fun _ _ => True) (fun s _ => Inv sha256 s)
      (fun s _ event h _ => (step_orderly h event).1) _ [] (new_inv sha256) events hall
  refine ⟨?_,fun i call hcall => ?_,fun i j call call' idx hcall hcall' hkey hidx hidx' => ?_⟩
  · exact (meets_congr (I := Inv sha256) (fun s event h => (step_orderly h event).1)
      (fun s event h => iff_of_true trivial (step_orderly h event).2) (new_inv sha256) events).mp hall
  · obtain ⟨pool,hpool,hlen⟩ := hinv.pool hcall
    exact ⟨pool,hpool,hlen,fun idx hidx => hlen ▸ (hinv.calls i call hcall).placed idx hidx⟩
  · exact hinv.alone hcall hcall' hkey hidx hidx'

end KcptunPools

end AtlasKernel.Shadowsocks
