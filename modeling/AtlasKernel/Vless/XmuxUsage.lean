import AtlasKernel.Vless.ConnectionReuse

/-! How often a pooled XHTTP HTTP/2 client is in use: `open_usage`, among the calls that
connect and the bridges that they spawn. Source: `adapter/vless.rs`. -/
namespace AtlasKernel.Vless
open AtlasKernel.Lib

/-- How far the download task of a bridge has come. -/
inductive DownloadStage where
  | awaiting
  | reading
  | over
deriving DecidableEq, Repr

/-- A bridge of `spawn_h2_xhttp_packet_bridge` with the pooled client it uses; `upload` is
that its upload task still runs. -/
structure XhttpBridge where
  client : Nat
  upload : Bool
  download : DownloadStage
deriving DecidableEq, Repr

structure XmuxPools where
  pools : VlessPools
  bridges : List XhttpBridge
deriving DecidableEq, Repr

/-- What the pools do by themselves, and what happens to a bridge. `responded` is the
answer that the download task awaits first. -/
inductive XmuxEvent where
  | pools (event : PoolsEvent)
  | responded (bridge : Nat) (ok : Bool)
  | post (bridge : Nat)
  | uploadEnds (bridge : Nat)
  | downloadEnds (bridge : Nat)
deriving DecidableEq, Repr

/-- The client that a call in this stage has got and is about to use. -/
def ConnectStage.client? : ConnectStage → Option Nat
  | .requesting client => some client
  | _ => none

namespace XmuxPools
variable (unicode : Char → Bool)

def new : XmuxPools := ⟨.new, []⟩

def requesting (s : XmuxPools) (call : Nat) : Option Nat :=
  (s.pools.calls[call]?).bind (·.stage.client?)

/-- The bridge that a call spawns at its end. -/
def spawned (s : XmuxPools) : PoolsEvent → List XhttpBridge
  | .request call true => ((s.requesting call).map (XhttpBridge.mk · true .awaiting)).toList
  | _ => []

def bridgeAt (s : XmuxPools) (bridge : Nat) (stage : DownloadStage) : Option XhttpBridge :=
  (s.bridges[bridge]?).filter (·.download = stage)

def setBridge (s : XmuxPools) (bridge : Nat) (b : XhttpBridge) : XmuxPools :=
  { s with bridges := s.bridges.set bridge b }

def step (s : XmuxPools) : XmuxEvent → XmuxPools × List Handout
  -- these two come from the bridges only
  | .pools (.post _) | .pools (.downloadEnds _) => (s, [])
  | .pools event =>
    (⟨(s.pools.step unicode event).1, s.bridges ++ s.spawned event⟩, (s.pools.step unicode event).2)
  | .responded bridge ok =>
    match s.bridgeAt bridge .awaiting with
    | none => (s, [])
    -- without a response the task returns before it gives the client back
    | some b => (s.setBridge bridge { b with download := if ok then .reading else .over }, [])
  | .post bridge =>
    match (s.bridges[bridge]?).filter (·.upload) with
    | none => (s, [])
    | some b => ({ s with pools := (s.pools.step unicode (.post b.client)).1 }, [])
  | .uploadEnds bridge =>
    match s.bridges[bridge]? with
    | none => (s, [])
    | some b => (s.setBridge bridge { b with upload := false }, [])
  | .downloadEnds bridge =>
    match s.bridgeAt bridge .reading with
    | none => (s, [])
    | some b =>
      ({ s with pools := (s.pools.step unicode (.downloadEnds b.client)).1 }.setBridge bridge
        { b with download := .over }, [])

end XmuxPools

/-! ## Who uses a client -/

/-- The calls that have got the client and have not counted themselves yet. -/
def VlessPools.picked (s : VlessPools) (client : Nat) : Nat :=
  s.calls.countP (·.stage = .requesting client)

def liveBridges (bridges : List XhttpBridge) (client : Nat) : Nat :=
  bridges.countP fun b => b.client = client ∧ b.download ≠ .over

/-- The bridges that use the client: their download is not over. -/
def XmuxPools.live (s : XmuxPools) (client : Nat) : Nat := liveBridges s.bridges client

/-- `open_usage` says how many bridges use the client, and stays within the limit of the
manager of the client. -/
def XmuxPools.Accounted (unicode : Char → Bool) (s : XmuxPools) : Prop :=
  ∀ n c, s.pools.clients[n]? = some c → c.openUsage.toInt = (s.live n : Int) ∧
    ∀ m, s.pools.managers.get (c.config.xhttpH2XmuxKey unicode) = some m →
      0 < m.config.maxConcurrency → c.openUsage ≤ m.config.maxConcurrency

/-- No request and no response fails, a call picks a client only when those that have picked
one before cannot take it to its limit, and the counter does not come to its end. -/
def XmuxEvent.Fits (unicode : Char → Bool) (s : XmuxPools) : XmuxEvent → Prop
  | .pools (.request call ok) =>
    ∀ client ∈ s.requesting call, ok = true ∧ s.live client < 2147483647
  | .pools (.getClient call) =>
    ∀ c ∈ s.pools.callAt call .managing,
      ∀ m ∈ (s.pools.managers.get (c.config.xhttpH2XmuxKey unicode)).filter (·.lock = none),
        ∀ n ∈ m.clients, s.pools.openUsage n < m.config.maxConcurrency.toInt →
          s.pools.openUsage n + s.pools.picked n < m.config.maxConcurrency.toInt
  | .responded bridge ok => ∀ _b ∈ s.bridgeAt bridge .awaiting, ok = true
  | _ => True

instance (unicode : Char → Bool) (s : XmuxPools) : (event : XmuxEvent) →
    Decidable (event.Fits unicode s)
  | .pools event => by
    cases event <;> (unfold XmuxEvent.Fits; infer_instance)
  | .responded .. => by
    unfold XmuxEvent.Fits
    infer_instance
  | .post _ | .uploadEnds _ | .downloadEnds _ => .isTrue trivial

/-! ## Counting -/

theorem countP_set {β : Type*} (p : β → Bool) {l : List β} {i : Nat} {old : β}
    (h : l[i]? = some old) (b : β) :
    (l.set i b).countP p + (if p old then 1 else 0) = l.countP p + (if p b then 1 else 0) := by
  induction l generalizing i with
  | nil => cases h
  | cons a l ih =>
    cases i with
    | zero =>
      cases h
      rw [List.set_cons_zero, List.countP_cons, List.countP_cons]
      omega
    | succ i =>
      rw [List.set_cons_succ, List.countP_cons, List.countP_cons]
      have hrest := ih h
      omega

namespace KeyMap
variable {β : Type*} {m : KeyMap β}

theorem get_cons (entry : List Char × β) (key : List Char) :
    KeyMap.get (entry :: m) key = if entry.1 = key then some entry.2 else m.get key := by
  rw [get, List.find?_cons]
  by_cases h : entry.1 = key
  · rw [decide_eq_true h, if_pos h]
    rfl
  · rw [decide_eq_false h, if_neg h]
    rfl

theorem get_remove {key other : List Char} (h : other ≠ key) : (m.remove key).get other = m.get other := by
  induction m with
  | nil => rfl
  | cons entry m ih =>
    rw [remove, List.filter_cons]
    by_cases hentry : entry.1 = key
    · rw [if_neg (by simp [hentry]), get_cons, if_neg (hentry ▸ h.symm)]
      exact ih
    · rw [if_pos (by simp [hentry]), get_cons, get_cons]
      exact congrArg _ ih

theorem get_insert (key other : List Char) (value : β) :
    (m.insert key value).get other = if key = other then some value else m.get other := by
  rw [insert, get_cons]
  by_cases h : key = other
  · rw [if_pos h, if_pos h]
  · rw [if_neg h, if_neg h, get_remove (Ne.symm h)]

end KeyMap

theorem ConnectStage.ne_requesting {stage : ConnectStage} (h : stage.client? = none) (n : Nat) :
    stage ≠ .requesting n := by
  rintro rfl
  cases h

namespace VlessPools
variable {unicode : Char → Bool} {s s' : VlessPools}

theorem picked_setStage {call : Nat} {c : ConnectCall} (hcall : s.calls[call]? = some c)
    (stage : ConnectStage) (n : Nat) :
    (s.setStage call c stage).picked n + (if c.stage = .requesting n then 1 else 0) =
      s.picked n + (if stage = .requesting n then 1 else 0) := by
  have h := countP_set (fun c => decide (c.stage = .requesting n)) hcall { c with stage := stage }
  simp only [decide_eq_true_eq] at h
  exact h

/-- Nothing that is counted changes; a manager may be new. -/
structure Quiet (s s' : VlessPools) : Prop where
  clients : s'.clients.map (fun c => (c.openUsage, c.config)) =
    s.clients.map fun c => (c.openUsage, c.config)
  picked : ∀ n, s'.picked n = s.picked n
  known : ∀ c ∈ s'.calls, ∀ n, c.stage = .requesting n → ∃ d ∈ s.calls, d.stage = .requesting n
  kept : ∀ key m, s.managers.get key = some m →
    ∃ m', s'.managers.get key = some m' ∧ m'.config = m.config

theorem Quiet.refl (s : VlessPools) : Quiet s s :=
  ⟨rfl, fun _ => rfl, fun c hc _ h => ⟨c, hc, h⟩, fun _ m hm => ⟨m, hm, rfl⟩⟩

theorem Quiet.trans {s'' : VlessPools} (h : Quiet s s') (h' : Quiet s' s'') : Quiet s s'' := by
  refine ⟨h'.clients.trans h.clients, fun n => (h'.picked n).trans (h.picked n), ?_, ?_⟩
  · intro c hc n hstage
    obtain ⟨d,hd,hdn⟩ := h'.known c hc n hstage
    exact h.known d hd n hdn
  · intro key m hm
    obtain ⟨m',hm',heq⟩ := h.kept key m hm
    obtain ⟨m'',hm'',heq'⟩ := h'.kept key m' hm'
    exact ⟨m'', hm'', heq'.trans heq⟩

theorem quiet_setStage {call : Nat} {c : ConnectCall} (hcall : s.calls[call]? = some c)
    {stage : ConnectStage} (hold : c.stage.client? = none) (hnew : stage.client? = none) :
    Quiet s (s.setStage call c stage) := by
  refine ⟨rfl, fun n => ?_, fun other hother n hstage => ?_, fun _ m hm => ⟨m, hm, rfl⟩⟩
  · have h := picked_setStage hcall stage n
    rw [if_neg (ConnectStage.ne_requesting hold n), if_neg (ConnectStage.ne_requesting hnew n)] at h
    exact h
  · cases List.mem_or_eq_of_mem_set hother with
    | inl hmem => exact ⟨other, hmem, hstage⟩
    | inr heq =>
      subst heq
      exact absurd hstage (ConnectStage.ne_requesting hnew n)

theorem quiet_setManager {key : List Char} {m : XHttpH2XmuxManager}
    (hm : ∀ old, s.managers.get key = some old → m.config = old.config) :
    Quiet s (s.setManager key m) := by
  refine ⟨rfl, fun _ => rfl, fun c hc _ h => ⟨c, hc, h⟩, fun other old hold => ?_⟩
  have hget : (s.setManager key m).managers.get other = _ := KeyMap.get_insert key other m
  by_cases heq : key = other
  · subst heq
    exact ⟨m, hget.trans (if_pos rfl), hm old hold⟩
  · exact ⟨old, hget.trans ((if_neg heq).trans hold), rfl⟩

theorem quiet_modifyClient (client : Nat) {f : XHttpH2XmuxClient → XHttpH2XmuxClient}
    (hf : ∀ c, (f c).openUsage = c.openUsage ∧ (f c).config = c.config) :
    Quiet s { s with clients := s.clients.modify client f } := by
  refine ⟨map_modify (fun c => ?_) _ _, fun _ => rfl, fun c hc _ h => ⟨c, hc, h⟩,
    fun _ m hm => ⟨m, hm, rfl⟩⟩
  rw [(hf c).1, (hf c).2]

theorem consume_quiet (c : XHttpH2XmuxClient) : c.consumeConnectionReuse.openUsage = c.openUsage ∧
    c.consumeConnectionReuse.config = c.config := by
  rw [XHttpH2XmuxClient.consumeConnectionReuse]
  split <;> exact ⟨rfl, rfl⟩

theorem quiet_push {c : ConnectCall} (hc : c.stage.client? = none) :
    Quiet s { s with calls := s.calls ++ [c] } := by
  refine ⟨rfl, fun n => ?_, fun other hother n hstage => ?_, fun _ m hm => ⟨m, hm, rfl⟩⟩
  · rw [picked, List.countP_append, List.countP_singleton, 
      if_neg (by simpa using ConnectStage.ne_requesting hc n)]
    rfl
  · cases List.mem_append.mp hother with
    | inl hmem => exact ⟨other, hmem, hstage⟩
    | inr hmem =>
      cases List.mem_singleton.mp hmem
      exact absurd hstage (ConnectStage.ne_requesting hc n)

theorem quiet_of_eq (hclients : s'.clients = s.clients) (hcalls : s'.calls = s.calls)
    (hmanagers : s'.managers = s.managers) : Quiet s s' := by
  refine ⟨congrArg _ hclients, fun n => ?_, fun c hc n h => ⟨c, hcalls ▸ hc, h⟩,
    fun key m hm => ⟨m, hmanagers ▸ hm, rfl⟩⟩
  rw [picked, picked, hcalls]

/-- A call that is not about to use a client goes on to where it does not either. -/
theorem Quiet.setStage (h : Quiet s s') (hcalls : s'.calls = s.calls) {call : Nat} {c : ConnectCall}
    (hcall : s.calls[call]? = some c) {stage : ConnectStage} (hold : c.stage.client? = none)
    (hnew : stage.client? = none) : Quiet s (s'.setStage call c stage) :=
  h.trans (quiet_setStage (hcalls ▸ hcall) hold hnew)

theorem quiet_lookup (call : Nat) : Quiet s (s.step unicode (.lookup call)).1 := by
  rw [step]
  split
  case h_1 => exact .refl s
  case h_2 c hc =>
    obtain ⟨hcall,hstage⟩ := callAt_some hc
    have hold : c.stage.client? = none := by
      rw [hstage]
      rfl
    have hworkers (muxWorkers : KeyMap Nat) : Quiet s { s with muxWorkers := muxWorkers } :=
      quiet_of_eq rfl rfl rfl
    dsimp only
    split
    · split
      · exact (hworkers (s.retainHeld (s.muxWorkers.remove _))).setStage rfl hcall hold rfl
      · exact (Quiet.refl s).setStage rfl hcall hold rfl
    · exact (hworkers (s.retainHeld s.muxWorkers)).setStage rfl hcall hold rfl

theorem quiet_opening (call : Nat) (ok : Bool) :
    Quiet s (s.step unicode (.transport call ok)).1 ∧
      Quiet s (s.step unicode (.manager call)).1 := by
  rw [step, step]
  cases hc : s.callAt call .opening with
  | none => exact ⟨.refl s, .refl s⟩
  | some c =>
    obtain ⟨hcall,hstage⟩ := callAt_some hc
    have hold : c.stage.client? = none := by
      rw [hstage]
      rfl
    dsimp only
    constructor
    · split
      · exact .refl s
      · refine (Quiet.refl s).setStage rfl hcall hold ?_
        cases ok <;> rfl
    · split
      · refine (quiet_setManager fun old hm => ?_).setStage rfl hcall hold rfl
        rw [hm]
        rfl
      · exact .refl s

theorem quiet_finish (call : Nat) (ok : Bool) : Quiet s (s.step unicode (.finish call ok)).1 := by
  rw [step]
  split
  case h_1 => exact .refl s
  case h_2 c hc =>
    obtain ⟨hcall,hstage⟩ := callAt_some hc
    have hold : c.stage.client? = none := by
      rw [hstage]
      rfl
    split
    · have hworkers : Quiet s { s with
          workers := s.workers ++ [OpenedWorker.mk c.config false true]
          muxWorkers := s.muxWorkers.insert (c.config.muxKey unicode) s.workers.length } :=
        quiet_of_eq rfl rfl rfl
      exact hworkers.setStage rfl hcall hold rfl
    · exact (Quiet.refl s).setStage rfl hcall hold rfl

/-- A manager is changed, but for its configuration. -/
theorem quiet_manager {key : List Char} {m m' : XHttpH2XmuxManager}
    (hm : s.managers.get key = some m) (hconfig : m'.config = m.config) :
    Quiet s (s.setManager key m') :=
  quiet_setManager fun _ hold =>
    hconfig.trans (congrArg XHttpH2XmuxManager.config (Option.some.inj (hm.symm.trans hold)))

theorem quiet_abandon (call : Nat) : Quiet s (s.step unicode (.abandon call)).1 := by
  rw [step]
  split
  case h_1 => exact .refl s
  case h_2 c hcall =>
    split
    case h_1 => exact .refl s
    case h_2 hstage =>
      dsimp only
      split
      case h_1 => exact .refl s
      case h_2 m hm =>
        have hunlock : Quiet s (s.setManager (c.config.xhttpH2XmuxKey unicode)
            { m with lock := none }) := quiet_manager hm rfl
        refine hunlock.setStage rfl hcall ?_ rfl
        rw [hstage]
        rfl
    case h_3 hstage _ =>
      refine (Quiet.refl s).setStage rfl hcall ?_ rfl
      cases hc : c.stage with
      | requesting n => exact absurd hc (hstage n)
      | _ => rfl

/-! ## The counters -/

/-- With `live` users each: the counters are right, and with those that have picked a client
no limit is passed. -/
structure Usage (unicode : Char → Bool) (live : Nat → Nat) (s : VlessPools) : Prop where
  counted : ∀ n c, s.clients[n]? = some c → c.openUsage.toInt = (live n : Int)
  unborn : ∀ n, s.clients.length ≤ n → live n = 0
  picks : ∀ c ∈ s.calls, ∀ n, c.stage = .requesting n → n < s.clients.length
  managed : ∀ c ∈ s.clients, ∃ m, s.managers.get (c.config.xhttpH2XmuxKey unicode) = some m
  limited : ∀ n c m, s.clients[n]? = some c →
    s.managers.get (c.config.xhttpH2XmuxKey unicode) = some m → 0 < m.config.maxConcurrency →
      live n + s.picked n ≤ m.config.maxConcurrency.toInt

variable {live : Nat → Nat}

theorem Quiet.length (h : Quiet s s') : s'.clients.length = s.clients.length := by
  have hlen := congrArg List.length h.clients
  rw [List.length_map, List.length_map] at hlen
  exact hlen

/-- Each client is as it was before, as far as it is counted. -/
theorem Quiet.client (h : Quiet s s') {n : Nat} {c' : XHttpH2XmuxClient}
    (hc' : s'.clients[n]? = some c') :
    ∃ c, s.clients[n]? = some c ∧ c'.openUsage = c.openUsage ∧ c'.config = c.config := by
  have hn := congrArg (·[n]?) h.clients
  simp only [List.getElem?_map, hc', Option.map_some] at hn
  obtain ⟨c,hc,heq⟩ := Option.map_eq_some_iff.mp hn.symm
  obtain ⟨husage,hconfig⟩ := Prod.mk.inj heq
  exact ⟨c, hc, husage.symm, hconfig.symm⟩

theorem Usage.quiet (h : Usage unicode live s) (hq : Quiet s s') : Usage unicode live s' := by
  refine ⟨fun n c' hc' => ?_, fun n hn => h.unborn n (hq.length ▸ hn), fun c hc n hstage => ?_,
    fun c' hc' => ?_, fun n c' m' hc' hm' hpos => ?_⟩
  · obtain ⟨c,hc,husage,-⟩ := hq.client hc'
    exact husage ▸ h.counted n c hc
  · obtain ⟨d,hd,hdn⟩ := hq.known c hc n hstage
    exact hq.length ▸ h.picks d hd n hdn
  · obtain ⟨n,hn⟩ := List.getElem?_of_mem hc'
    obtain ⟨c,hc,-,hconfig⟩ := hq.client hn
    obtain ⟨m,hm⟩ := h.managed c (List.mem_of_getElem? hc)
    obtain ⟨m',hm',-⟩ := hq.kept _ m hm
    exact ⟨m', hconfig ▸ hm'⟩
  · obtain ⟨c,hc,-,hconfig⟩ := hq.client hc'
    obtain ⟨m,hm⟩ := h.managed c (List.mem_of_getElem? hc)
    obtain ⟨m'',hm'',heq⟩ := hq.kept _ m hm
    cases Option.some.inj ((hconfig ▸ hm').symm.trans hm'')
    rw [hq.picked, heq]
    exact h.limited n c m hc hm (heq ▸ hpos)

/-- A call picks a client that is still below its limit. -/
theorem Usage.pick (h : Usage unicode live s) {call : Nat} {c : ConnectCall}
    (hcall : s.calls[call]? = some c) (hold : c.stage.client? = none) {n : Nat}
    (hn : n < s.clients.length)
    (hbelow : ∀ d m, s.clients[n]? = some d →
      s.managers.get (d.config.xhttpH2XmuxKey unicode) = some m → 0 < m.config.maxConcurrency →
        live n + s.picked n < m.config.maxConcurrency.toInt) :
    Usage unicode live (s.setStage call c (.requesting n)) := by
  refine ⟨h.counted, h.unborn, fun other hother k hstage => ?_, h.managed,
    fun k d m hd hm hpos => ?_⟩
  · cases List.mem_or_eq_of_mem_set hother with
    | inl hmem => exact h.picks other hmem k hstage
    | inr heq =>
      subst heq
      cases hstage
      exact hn
  · have hpicked := picked_setStage hcall (.requesting n) k
    rw [if_neg (ConnectStage.ne_requesting hold k)] at hpicked
    by_cases hk : n = k
    · subst hk
      have hlt := hbelow d m hd hm hpos
      rw [if_pos rfl] at hpicked
      omega
    · rw [if_neg (by simpa using hk)] at hpicked
      have hle := h.limited k d m hd hm hpos
      omega

theorem new_openUsage (config : VlessConfig) (now : Nat) :
    (XHttpH2XmuxClient.new config now).openUsage.toInt = 0 := rfl

/-- A client that nobody uses is added. -/
theorem Usage.push (h : Usage unicode live s) {c : XHttpH2XmuxClient} (hzero : c.openUsage.toInt = 0)
    (hm : ∃ m, s.managers.get (c.config.xhttpH2XmuxKey unicode) = some m) :
    Usage unicode live { s with clients := s.clients ++ [c] } := by
  have hlen : (s.clients ++ [c]).length = s.clients.length + 1 := List.length_append
  have hlast (n : Nat) (d : XHttpH2XmuxClient) (hd : (s.clients ++ [c])[n]? = some d) :
      s.clients[n]? = some d ∨ n = s.clients.length ∧ d = c := by
    by_cases hn : n < s.clients.length
    · exact .inl ((List.getElem?_append_left hn).symm.trans hd)
    · have heq : n = s.clients.length := by
        have := (List.getElem?_eq_some_iff.mp hd).1
        omega
      subst heq
      exact .inr ⟨rfl, (Option.some.inj (List.getElem?_concat_length.symm.trans hd)).symm⟩
  refine ⟨fun n d hd => ?_, fun n hn => h.unborn n (Nat.le_of_succ_le (hlen.symm.trans_le hn)),
    fun d hd n hstage => ?_,
    fun d hd => ?_, fun n d m hd hmd hpos => ?_⟩
  · cases hlast n d hd with
    | inl hold => exact h.counted n d hold
    | inr hnew =>
      rw [hnew.2, hzero, h.unborn n (Nat.le_of_eq hnew.1.symm)]
      rfl
  · exact Nat.lt_of_lt_of_eq (Nat.lt_succ_of_lt (h.picks d hd n hstage)) hlen.symm
  · cases List.mem_append.mp hd with
    | inl hold => exact h.managed d hold
    | inr hnew =>
      cases List.mem_singleton.mp hnew
      exact hm
  · cases hlast n d hd with
    | inl hold => exact h.limited n d m hold hmd hpos
    | inr hnew =>
      have hpicked : s.picked n = 0 := by
        rw [picked, List.countP_eq_zero]
        intro other hother hstage
        exact absurd (h.picks other hother n (of_decide_eq_true hstage)) (by omega)
      have hlimit := Int32.lt_iff_toInt_lt.mp hpos
      change (live n : Int) + (s.picked n : Int) ≤ _
      rw [hpicked, h.unborn n (Nat.le_of_eq hnew.1.symm)]
      exact Int.le_of_lt hlimit

theorem toInt_one : Int32.toInt 1 = 1 := rfl

theorem toInt_add_one {x : Int32} {n : Nat} (h : x.toInt = n) (hn : n < 2147483647) :
    (x + 1).toInt = (n + 1 : Nat) := by
  rw [Int32.toInt_add, h, toInt_one]
  exact Int.bmod_eq_of_le (by omega) (by omega)

theorem toInt_sub_one {x : Int32} {n : Nat} (h : x.toInt = (n + 1 : Nat)) : (x - 1).toInt = n := by
  have hlt := x.toInt_lt
  rw [Int32.toInt_sub, h, toInt_one]
  refine (Int.bmod_eq_of_le (by omega) (by omega)).trans ?_
  omega

/-- The counter of one client changes together with its users, of whom there are no more
than there were with the calls that had picked it. -/
theorem Usage.modify (h : Usage unicode live s) (client : Nat)
    (f : XHttpH2XmuxClient → XHttpH2XmuxClient) (live' : Nat → Nat) (calls : List ConnectCall)
    (hf : ∀ c, s.clients[client]? = some c →
      (f c).openUsage.toInt = live' client ∧ (f c).config = c.config)
    (hother : ∀ n, n ≠ client → live' n = live n) (hborn : client < s.clients.length)
    (hcalls : ∀ c ∈ calls, ∀ n, c.stage = .requesting n →
      ∃ d ∈ s.calls, d.stage = .requesting n)
    (hle : ∀ n, live' n + calls.countP (·.stage = .requesting n) ≤ live n + s.picked n) :
    Usage unicode live' { s with clients := s.clients.modify client f, calls := calls } := by
  have hget (n : Nat) (c' : XHttpH2XmuxClient) (hc' : (s.clients.modify client f)[n]? = some c') :
      ∃ c, s.clients[n]? = some c ∧ c' = if client = n then f c else c := by
    rw [List.getElem?_modify] at hc'
    obtain ⟨c,hc,heq⟩ := Option.map_eq_some_iff.mp hc'
    exact ⟨c, hc, heq.symm⟩
  have hconfig {n : Nat} {c : XHttpH2XmuxClient} (hc : s.clients[n]? = some c) :
      (if client = n then f c else c).config = c.config := by
    split
    case isTrue heq =>
      subst heq
      exact (hf c hc).2
    case isFalse => rfl
  refine ⟨fun n c' hc' => ?_, fun n hn => ?_, fun c hc n hstage => ?_, fun c' hc' => ?_,
    fun n c' m hc' hm hpos => ?_⟩
  · obtain ⟨c,hc,rfl⟩ := hget n c' hc'
    split
    case isTrue heq =>
      subst heq
      exact (hf c hc).1
    case isFalse hne => exact hother n (Ne.symm hne) ▸ h.counted n c hc
  · have hlen : s.clients.length ≤ n := (List.length_modify ..).symm.trans_le hn
    rw [hother n (by omega)]
    exact h.unborn n hlen
  · obtain ⟨d,hd,hdn⟩ := hcalls c hc n hstage
    exact (h.picks d hd n hdn).trans_eq (List.length_modify ..).symm
  · obtain ⟨n,hn⟩ := List.getElem?_of_mem hc'
    obtain ⟨c,hc,rfl⟩ := hget n c' hn
    rw [hconfig hc]
    exact h.managed c (List.mem_of_getElem? hc)
  · obtain ⟨c,hc,rfl⟩ := hget n c' hc'
    rw [hconfig hc] at hm
    have hlimit := h.limited n c m hc hm hpos
    have hn := hle n
    change (live' n : Int) + (calls.countP (·.stage = .requesting n) : Int) ≤ _
    omega

/-! ## Steps of the pools -/

theorem Usage.openUsage_eq (h : Usage unicode live s) {n : Nat} (hn : n < s.clients.length) :
    s.openUsage n = live n := by
  have hget := List.getElem?_eq_getElem hn
  rw [openUsage, hget]
  exact h.counted n _ hget

theorem Usage.getClient (h : Usage unicode live s) (hpools : s.Inv unicode (fun _ => True) fun _ => True)
    {call : Nat} (hfits : ∀ c ∈ s.callAt call .managing,
      ∀ m ∈ (s.managers.get (c.config.xhttpH2XmuxKey unicode)).filter (·.lock = none),
        ∀ n ∈ m.clients, s.openUsage n < m.config.maxConcurrency.toInt →
          s.openUsage n + s.picked n < m.config.maxConcurrency.toInt) :
    Usage unicode live (s.step unicode (.getClient call)).1 := by
  have hdoes := getClient_does unicode s call
  generalize s.step unicode (.getClient call) = r at hdoes ⊢
  cases hdoes with
  | waits => exact h
  | @connects c m hc hm =>
    obtain ⟨hcall,hstage⟩ := callAt_some hc
    have hmanager : Quiet s (s.setManager (c.config.xhttpH2XmuxKey unicode)
        { m with clients := s.usableClients m, lock := some call }) :=
      quiet_manager (Option.filter_eq_some_iff.mp hm).1 rfl
    exact h.quiet (hmanager.setStage rfl hcall (by rw [hstage]; rfl) rfl)
  | @reuses c m n hc hm hclient hbelow =>
    obtain ⟨hcall,hstage⟩ := callAt_some hc
    have hget := (Option.filter_eq_some_iff.mp hm).1
    have hn := (usableClients_mem hclient).1
    obtain ⟨config,hconfig,hkey,-⟩ := hpools.filed hget n hn
    have hborn : n < s.clients.length :=
      (List.getElem?_eq_some_iff.mp hconfig).1.trans_eq (List.length_map ..)
    have hmanager : Quiet s (s.setManager (c.config.xhttpH2XmuxKey unicode)
        { m with clients := s.usableClients m }) := quiet_manager hget rfl
    have hquiet := hmanager.trans (quiet_modifyClient n consume_quiet)
    refine (h.quiet hquiet).pick hcall (by rw [hstage]; rfl) (hquiet.length ▸ hborn) ?_
    intro d m' hd hm' hpos
    -- the client is filed under the key of the call, so its manager is the one of the call
    obtain ⟨d',hd',-,hsame⟩ := hquiet.client hd
    have hconfig' : d'.config = config := by
      rw [clientConfigs, List.getElem?_map, hd'] at hconfig
      exact Option.some.inj hconfig
    rw [hsame, hconfig', hkey] at hm'
    obtain ⟨m'',hm'',heq'⟩ := hquiet.kept _ m hget
    cases Option.some.inj (hm'.symm.trans hm'')
    rw [heq'] at hpos ⊢
    have hlimit := Int32.lt_iff_toInt_lt.mp hpos
    have husage := h.openUsage_eq hborn
    rw [hquiet.picked, ← husage]
    refine hfits c hc m hm n hn ?_
    cases hbelow with
    | inl hle => exact absurd (Int32.le_iff_toInt_le.mp hle) (Int.not_le.mpr hlimit)
    | inr hlt => exact hlt

theorem Usage.newClient (h : Usage unicode live s) (call : Nat) (ok : Bool) :
    Usage unicode live (s.step unicode (.newClient call ok)).1 := by
  have hdoes := newClient_does unicode s call ok
  generalize s.step unicode (.newClient call ok) = r at hdoes ⊢
  cases hdoes with
  | waits => exact h
  | @fails c m hc hm =>
    obtain ⟨hcall,hstage⟩ := callAt_some hc
    have hmanager : Quiet s (s.setManager (c.config.xhttpH2XmuxKey unicode)
        { m with lock := none }) := quiet_manager hm rfl
    exact h.quiet (hmanager.setStage rfl hcall (by rw [hstage]; rfl) rfl)
  | @opens c m hc hm =>
    obtain ⟨hcall,hstage⟩ := callAt_some hc
    have hmanager : Quiet s (s.setManager (c.config.xhttpH2XmuxKey unicode)
        { m with clients := m.clients ++ [s.clients.length], lock := none }) := quiet_manager hm rfl
    have hpush := (h.quiet hmanager).push (new_openUsage c.config s.now)
      ⟨_, (KeyMap.get_insert _ _ _).trans (if_pos rfl)⟩
    have hlen : (s.clients ++ [XHttpH2XmuxClient.new c.config s.now]).length =
        s.clients.length + 1 := List.length_append
    refine hpush.pick hcall (by rw [hstage]; rfl)
      (Nat.lt_of_lt_of_eq (Nat.lt_succ_self _) hlen.symm) ?_
    intro d m' hd hm' hpos
    have hpicked : s.picked s.clients.length = 0 := by
      rw [picked, List.countP_eq_zero]
      intro other hother hother'
      exact absurd (h.picks other hother _ (of_decide_eq_true hother')) (Nat.lt_irrefl _)
    have hlimit := Int32.lt_iff_toInt_lt.mp hpos
    change (live s.clients.length : Int) + (s.picked s.clients.length : Int) < _
    rw [hpicked, h.unborn _ (Nat.le_refl _)]
    exact hlimit

/-- One user more, or the calls that have picked it one fewer. -/
def oneMore (live : Nat → Nat) (client n : Nat) : Nat := live n + if n = client then 1 else 0

theorem Usage.request (h : Usage unicode live s) {call client : Nat} {c : ConnectCall}
    (hcall : s.calls[call]? = some c) (hstage : c.stage = .requesting client)
    (hmax : live client < 2147483647) :
    Usage unicode (oneMore live client) (s.step unicode (.request call true)).1 := by
  have hborn := h.picks c (List.mem_of_getElem? hcall) client hstage
  rw [step, hcall]
  simp only [hstage]
  refine h.modify client _ (oneMore live client) (s.calls.set call { c with stage := .opened })
    (fun used hused => ⟨?_, rfl⟩) (fun n hn => ?_) hborn ?_ fun n => ?_
  · have hcounted := toInt_add_one (h.counted client used hused) hmax
    rw [oneMore, if_pos rfl]
    exact hcounted
  · rw [oneMore, if_neg hn]
    rfl
  · intro other hother n hn
    cases List.mem_or_eq_of_mem_set hother with
    | inl hmem => exact ⟨other, hmem, hn⟩
    | inr heq =>
      subst heq
      cases hn
  · have hcount := countP_set (fun d => decide (d.stage = .requesting n)) hcall
      { c with stage := .opened }
    rw [hstage] at hcount
    simp only [decide_eq_true_eq, ConnectStage.requesting.injEq, reduceCtorEq, if_false] at hcount
    rw [oneMore, picked]
    by_cases hn : n = client
    · rw [if_pos hn]
      rw [if_pos hn.symm] at hcount
      omega
    · rw [if_neg hn]
      rw [if_neg (Ne.symm hn)] at hcount
      omega

/-- A bridge gives its client back. -/
theorem Usage.downloadEnds {client : Nat} (h : Usage unicode (oneMore live client) s) :
    Usage unicode live (s.step unicode (.downloadEnds client)).1 := by
  have hborn : client < s.clients.length := by
    by_contra hge
    have hzero := h.unborn client (Nat.le_of_not_lt hge)
    rw [oneMore, if_pos rfl] at hzero
    cases hzero
  refine h.modify client _ live s.calls (fun used hused => ⟨?_, rfl⟩) (fun n hn => ?_) hborn
    (fun other hother n hn => ⟨other, hother, hn⟩) fun n => ?_
  · have hcounted := h.counted client used hused
    rw [oneMore, if_pos rfl] at hcounted
    exact toInt_sub_one hcounted
  · rw [oneMore, if_neg hn]
    rfl
  · exact Nat.add_le_add_right (Nat.le_add_right ..) _

end VlessPools

/-! ## Runs -/

theorem liveBridges_set {bridges : List XhttpBridge} {i : Nat} {old : XhttpBridge}
    (h : bridges[i]? = some old) (b : XhttpBridge) (n : Nat) :
    liveBridges (bridges.set i b) n +
        (if old.client = n ∧ old.download ≠ .over then 1 else 0) =
      liveBridges bridges n + (if b.client = n ∧ b.download ≠ .over then 1 else 0) := by
  have hcount := countP_set (fun b => decide (b.client = n ∧ b.download ≠ .over)) h b
  simp only [decide_eq_true_eq] at hcount
  exact hcount

theorem liveBridges_spawn (bridges : List XhttpBridge) (client : Nat) :
    liveBridges (bridges ++ [⟨client, true, .awaiting⟩]) =
      VlessPools.oneMore (liveBridges bridges) client := by
  funext n
  rw [liveBridges, List.countP_append, List.countP_singleton, VlessPools.oneMore]
  simp [liveBridges, eq_comm]

namespace XmuxPools
variable {unicode : Char → Bool} {s : XmuxPools}

structure Kept (unicode : Char → Bool) (s : XmuxPools) : Prop where
  pools : s.pools.Inv unicode (fun _ => True) fun _ => True
  usage : VlessPools.Usage unicode s.live s.pools

theorem new_kept : new.Kept unicode :=
  ⟨VlessPools.new_inv, fun _ _ h => absurd h (by simp [new, VlessPools.new]), fun _ _ => rfl,
    fun _ h => absurd h List.not_mem_nil, fun _ h => absurd h List.not_mem_nil,
    fun _ _ _ h => absurd h (by simp [new, VlessPools.new])⟩

theorem Kept.step_pools (h : s.Kept unicode) {event : PoolsEvent}
    {spawned : List XhttpBridge}
    (husage : VlessPools.Usage unicode (liveBridges (s.bridges ++ spawned))
      (s.pools.step unicode event).1) :
    Kept unicode ⟨(s.pools.step unicode event).1, s.bridges ++ spawned⟩ :=
  ⟨h.pools.step event (fun _ _ => trivial) fun _ _ => trivial, husage⟩

/-- A step of the pools that spawns no bridge. -/
theorem Kept.step_same (h : s.Kept unicode) {event : PoolsEvent}
    (husage : VlessPools.Usage unicode s.live (s.pools.step unicode event).1) :
    Kept unicode ⟨(s.pools.step unicode event).1, s.bridges ++ []⟩ := by
  refine h.step_pools ?_
  rw [List.append_nil]
  exact husage

theorem Kept.step_quiet (h : s.Kept unicode) {event : PoolsEvent}
    (hquiet : s.pools.Quiet (s.pools.step unicode event).1) :
    Kept unicode ⟨(s.pools.step unicode event).1, s.bridges ++ []⟩ :=
  h.step_same (h.usage.quiet hquiet)

theorem Kept.request (h : s.Kept unicode) {call : Nat} {ok : Bool}
    (hfits : ∀ client ∈ s.requesting call, ok = true ∧ s.live client < 2147483647) :
    (s.step unicode (.pools (.request call ok))).1.Kept unicode := by
  cases hclient : s.requesting call with
  | some client =>
    obtain ⟨rfl,hmax⟩ := hfits client hclient
    obtain ⟨c,hcall,hc⟩ := Option.bind_eq_some_iff.mp hclient
    have hstage : c.stage = .requesting client := by
      cases hs : c.stage with
      | requesting n =>
        rw [hs] at hc
        rw [Option.some.inj hc]
      | _ =>
        rw [hs] at hc
        cases hc
    have hspawned : s.spawned (.request call true) = [⟨client, true, .awaiting⟩] := by
      rw [spawned, hclient]
      rfl
    refine h.step_pools ?_
    rw [hspawned, liveBridges_spawn]
    exact h.usage.request hcall hstage hmax
  | none =>
    have hspawned : s.spawned (.request call ok) = [] := by
      cases ok with
      | false => rfl
      | true =>
        rw [spawned, hclient]
        rfl
    have hnone : (s.pools.step unicode (.request call ok)).1 = s.pools := by
      rw [VlessPools.step]
      cases hcall : s.pools.calls[call]? with
      | none => rfl
      | some c =>
        rw [requesting, hcall] at hclient
        cases hs : c.stage with
        | requesting n => simp [hs, ConnectStage.client?] at hclient
        | _ => simp only [hs]
    rw [XmuxPools.step, hspawned]
    · refine h.step_quiet ?_
      rw [hnone]
      exact .refl _
    · intro client heq
      cases heq
    · intro client heq
      cases heq

theorem Kept.setBridge (h : s.Kept unicode) {i : Nat} {old b : XhttpBridge}
    (hi : s.bridges[i]? = some old) (hclient : b.client = old.client)
    (hover : b.download = .over ↔ old.download = .over) : (s.setBridge i b).Kept unicode := by
  refine ⟨h.pools, ?_⟩
  have hlive : (s.setBridge i b).live = s.live := by
    funext n
    have hset := liveBridges_set hi b n
    simp only [hclient, ne_eq, hover] at hset
    exact Nat.add_right_cancel hset
  rw [hlive]
  exact h.usage

theorem bridgeAt_some {i : Nat} {stage : DownloadStage} {b : XhttpBridge}
    (h : s.bridgeAt i stage = some b) : s.bridges[i]? = some b ∧ b.download = stage := by
  obtain ⟨hi,hstage⟩ := Option.filter_eq_some_iff.mp h
  exact ⟨hi, of_decide_eq_true hstage⟩

theorem Kept.downloadEnds (h : s.Kept unicode) (i : Nat) :
    (s.step unicode (.downloadEnds i)).1.Kept unicode := by
  rw [step]
  split
  case h_1 => exact h
  case h_2 b hb =>
    obtain ⟨hi,hstage⟩ := bridgeAt_some hb
    refine ⟨h.pools.step _ (fun _ _ => trivial) fun _ _ => trivial, ?_⟩
    have hlive : s.live =
        VlessPools.oneMore (liveBridges (s.bridges.set i { b with download := .over })) b.client := by
      funext n
      have hset := liveBridges_set hi { b with download := .over } n
      simp only [hstage, ne_eq, reduceCtorEq, not_false_eq_true, and_true, not_true_eq_false,
        and_false, if_false, Nat.add_zero] at hset
      rw [VlessPools.oneMore, live, ← hset]
      simp only [eq_comm]
    exact (hlive ▸ h.usage).downloadEnds

theorem Kept.step (h : s.Kept unicode) (event : XmuxEvent) (hfits : event.Fits unicode s) :
    (s.step unicode event).1.Kept unicode := by
  cases event with
  | pools event =>
    cases event with
    | connect _ | sendUdp _ => exact h.step_quiet (VlessPools.quiet_push rfl)
    | lookup call => exact h.step_quiet (VlessPools.quiet_lookup call)
    | transport call ok => exact h.step_quiet (VlessPools.quiet_opening call ok).1
    | manager call => exact h.step_quiet (VlessPools.quiet_opening call true).2
    | getClient call => exact h.step_same (h.usage.getClient h.pools hfits)
    | newClient call ok => exact h.step_same (h.usage.newClient call ok)
    | request call ok => exact h.request hfits
    | finish call ok => exact h.step_quiet (VlessPools.quiet_finish call ok)
    | abandon call => exact h.step_quiet (VlessPools.quiet_abandon call)
    | workerCloses _ | workerDropped _ | elapse _ =>
      exact h.step_quiet (VlessPools.quiet_of_eq rfl rfl rfl)
    | clientCloses client =>
      exact h.step_quiet (VlessPools.quiet_modifyClient client fun _ => ⟨rfl, rfl⟩)
    | post _ | downloadEnds _ => exact h
  | responded i ok =>
    rw [XmuxPools.step]
    split
    case h_1 => exact h
    case h_2 b hb =>
      obtain ⟨hi,hstage⟩ := bridgeAt_some hb
      cases hfits b hb
      exact h.setBridge hi rfl (by simp [hstage])
  | post i =>
    rw [XmuxPools.step]
    split
    case h_1 => exact h
    case h_2 b hb =>
      exact ⟨h.pools.step _ (fun _ _ => trivial) fun _ _ => trivial,
        h.usage.quiet (VlessPools.quiet_modifyClient b.client fun _ => ⟨rfl, rfl⟩)⟩
  | uploadEnds i =>
    rw [XmuxPools.step]
    split
    case h_1 => exact h
    case h_2 b hb => exact h.setBridge hb rfl Iff.rfl
  | downloadEnds i => exact h.downloadEnds i

theorem Kept.accounted (h : s.Kept unicode) : s.Accounted unicode := by
  intro n c hc
  have hcounted := h.usage.counted n c hc
  refine ⟨hcounted, fun m hm hpos => ?_⟩
  have hlimit := h.usage.limited n c m hc hm hpos
  rw [Int32.le_iff_toInt_le, hcounted]
  omega

/-- What the first part says of the client with a given number. -/
theorem Accounted.openUsage (h : s.Accounted unicode) (n : Nat) :
    ∀ c ∈ s.pools.clients[n]?, c.openUsage.toInt = s.live n := fun c hc => (h n c hc).1

/-- The same for the second part. -/
theorem Accounted.limit (h : s.Accounted unicode) (n : Nat) : ∀ c ∈ s.pools.clients[n]?,
    ∀ m ∈ s.pools.managers.get (c.config.xhttpH2XmuxKey unicode),
      0 < m.config.maxConcurrency → c.openUsage ≤ m.config.maxConcurrency :=
  fun c hc => (h n c hc).2

end XmuxPools

/-- XHTTP over TLS, at most `n` bridges for each client. -/
def limitedConfig (n : Int32) : VlessConfig :=
  { tlsConfig "a.example" 1 .xHttp false with
    transport := { (tlsConfig "a.example" 1 .xHttp false).transport with
      xmux := ⟨n, 0, 0, 0, 0⟩ } }

/-- The first call opens a client, the second cannot share it, the third comes when the
bridge of the first is over. -/
def threeCalls : List XmuxEvent :=
  [.pools (.connect (limitedConfig 1)), .pools (.manager 0), .pools (.getClient 0),
    .pools (.newClient 0 true), .pools (.request 0 true), .pools (.connect (limitedConfig 1)),
    .pools (.manager 1), .pools (.getClient 1), .pools (.newClient 1 true),
    .pools (.request 1 true), .responded 0 true, .post 0, .downloadEnds 0, .uploadEnds 0,
    .pools (.connect (limitedConfig 1)), .pools (.manager 2), .pools (.getClient 2),
    .pools (.request 2 true)]

/-- A client is opened for a call. -/
def firstClient : List XmuxEvent :=
  [.pools (.connect (limitedConfig 1)), .pools (.manager 0), .pools (.getClient 0),
    .pools (.newClient 0 true)]

end AtlasKernel.Vless
