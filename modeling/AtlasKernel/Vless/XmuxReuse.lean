import AtlasKernel.Vless.XmuxUsage

/-! How often a pooled XHTTP HTTP/2 client comes to a call: `left_usage`, among the calls of
`get_client` and all else that happens to the pools. Source: `adapter/vless.rs`. -/
namespace AtlasKernel.Vless
open AtlasKernel.Lib

/-- A client that `get_client` returns, under the key of the manager. `reused` is that the
manager had the client before, `usable` what `is_usable` says as it is chosen. -/
structure XmuxHandout where
  key : List Char
  client : Nat
  reused : Bool
  usable : Bool
deriving DecidableEq, Repr

/-- A client that comes to a call again is usable, and a new one is unless it is for one use. -/
def XmuxHandout.Chosen (h : XmuxHandout) (limit : Int32) : Prop :=
  h.usable = true ↔ h.reused = true ∨ limit ≠ 1

def timesHandedOut (log : List XmuxHandout) (client : Nat) : Nat := log.countP (·.client = client)

namespace VlessPools
variable (unicode : Char → Bool)

def isUsable (s : VlessPools) (client : Nat) : Bool := (s.clients[client]?).any (·.isUsable s.now)

/-- The client that a call has got and not used yet. -/
def got (s : VlessPools) (call : Nat) : Option Nat := (s.calls[call]?).bind (·.stage.client?)

/-- What `get_client` returns in a step. A client of the manager is looked at before it is
taken, and a new one is there only afterwards. -/
def handout (s : VlessPools) : PoolsEvent → Option XmuxHandout
  | .getClient call =>
    (s.callAt call .managing).bind fun c =>
      ((s.step unicode (.getClient call)).1.got call).map fun client =>
        ⟨c.config.xhttpH2XmuxKey unicode, client, true, s.isUsable client⟩
  | .newClient call ok =>
    (s.callAt call .connecting).bind fun c =>
      ((s.step unicode (.newClient call ok)).1.got call).map fun client =>
        ⟨c.config.xhttpH2XmuxKey unicode, client, false,
          (s.step unicode (.newClient call ok)).1.isUsable client⟩
  | _ => none

/-- A step, with what `get_client` returns in it. -/
def handoutStep (s : VlessPools) (event : PoolsEvent) : VlessPools × List XmuxHandout :=
  ((s.step unicode event).1, (s.handout unicode event).toList)

end VlessPools

/-! ## What a step does to the clients -/

/-- A new client can be used again just when more than one use is allowed. -/
theorem new_isUsable_iff (config : VlessConfig) (now : Nat) :
    (XHttpH2XmuxClient.new config now).isUsable now = true ↔
      config.transport.xmux.cMaxReuseTimes ≠ 1 := by
  constructor
  · intro husable honce
    simp [XHttpH2XmuxClient.isUsable, VlessPools.new_used_up config now honce] at husable
  · intro h
    exact new_isUsable h now

namespace VlessPools
variable {unicode : Char → Bool} {s s' : VlessPools}

/-- The uses that are left of each client, which is opened under a configuration. -/
def remaining (s : VlessPools) : List (Int32 × VlessConfig) :=
  s.clients.map fun c => (c.leftUsage, c.config)

/-- From one state to the next: no client comes to a call, or one that is usable gives up a
use, or a new one is opened. -/
inductive Hands (unicode : Char → Bool) (s s' : VlessPools) : Option XmuxHandout → Prop where
  | none (h : s'.remaining = s.remaining) : Hands unicode s s' none
  | again {client : Nat} {c : XHttpH2XmuxClient} (hc : s.clients[client]? = some c)
      (husable : c.isUsable s.now = true)
      (h : s'.clients = s.clients.modify client .consumeConnectionReuse) :
      Hands unicode s s' (some ⟨c.config.xhttpH2XmuxKey unicode, client, true, true⟩)
  | first (config : VlessConfig) (h : s'.clients = s.clients ++ [.new config s.now]) :
      Hands unicode s s' (some ⟨config.xhttpH2XmuxKey unicode, s.clients.length, false,
        (XHttpH2XmuxClient.new config s.now).isUsable s.now⟩)

theorem hands_of_clients (h : s'.clients = s.clients) : Hands unicode s s' none :=
  .none (by rw [remaining, h, remaining])

theorem got_setStage {t : VlessPools} {call : Nat} {before : ConnectStage} {c : ConnectCall}
    (h : s.callAt call before = some c) (stage : ConnectStage) (hcalls : t.calls = s.calls) :
    (t.setStage call c stage).got call = stage.client? := by
  have hlt := (List.getElem?_eq_some_iff.mp (callAt_some h).1).1
  simp [got, setStage, hcalls, hlt]

theorem got_callAt {call : Nat} {stage : ConnectStage} {c : ConnectCall}
    (h : s.callAt call stage = some c) : s.got call = stage.client? := by
  obtain ⟨hcall,hstage⟩ := callAt_some h
  rw [got, hcall, Option.bind_some, hstage]

theorem hands_getClient {udp all : VlessConfig → Prop} (h : s.Inv unicode udp all) (call : Nat) :
    Hands unicode s (s.step unicode (.getClient call)).1 (s.handout unicode (.getClient call)) := by
  rw [handout]
  have hdoes := getClient_does unicode s call
  generalize s.step unicode (.getClient call) = r at hdoes ⊢
  cases hdoes with
  | waits =>
    cases hc : s.callAt call .managing with
    | none => exact hands_of_clients rfl
    | some c =>
      rw [Option.bind_some, got_callAt hc]
      exact hands_of_clients rfl
  | connects hc hm =>
    rw [hc, Option.bind_some, got_setStage hc]
    · exact hands_of_clients rfl
    · rfl
  | @reuses c m client hc hm hclient hbelow =>
    have husable : s.isUsable client = true := (usableClients_mem hclient).2
    obtain ⟨used,hused,hnow⟩ := (Option.any_eq_true _ _).mp husable
    have hkey := (h.usable_key (Option.filter_eq_some_iff.mp hm).1 hclient hused).1
    rw [hc, Option.bind_some, got_setStage hc, ConnectStage.client?, Option.map_some, husable,
      ← hkey]
    · exact .again hused hnow rfl
    · rfl

theorem hands_newClient (call : Nat) (ok : Bool) :
    Hands unicode s (s.step unicode (.newClient call ok)).1
      (s.handout unicode (.newClient call ok)) := by
  rw [handout]
  have hdoes := newClient_does unicode s call ok
  generalize s.step unicode (.newClient call ok) = r at hdoes ⊢
  cases hdoes with
  | waits =>
    cases hc : s.callAt call .connecting with
    | none => exact hands_of_clients rfl
    | some c =>
      rw [Option.bind_some, got_callAt hc]
      exact hands_of_clients rfl
  | fails hc hm =>
    rw [hc, Option.bind_some, got_setStage hc]
    · exact hands_of_clients rfl
    · rfl
  | @opens c m hc hm =>
    have husable (t : VlessPools) (hnow : t.now = s.now)
        (hclients : t.clients = s.clients ++ [.new c.config s.now]) :
        t.isUsable s.clients.length = (XHttpH2XmuxClient.new c.config s.now).isUsable s.now := by
      simp [isUsable, hclients, hnow]
    rw [hc, Option.bind_some, got_setStage hc, ConnectStage.client?, Option.map_some, husable]
    · exact .first c.config rfl
    all_goals rfl

theorem remaining_modify (client : Nat) {f : XHttpH2XmuxClient → XHttpH2XmuxClient}
    (hf : ∀ c, (f c).leftUsage = c.leftUsage ∧ (f c).config = c.config) :
    remaining { s with clients := s.clients.modify client f } = s.remaining := by
  refine map_modify (fun c => ?_) _ _
  rw [(hf c).1, (hf c).2]

theorem hands_step {udp all : VlessConfig → Prop} (h : s.Inv unicode udp all) (event : PoolsEvent) :
    Hands unicode s (s.step unicode event).1 (s.handout unicode event) := by
  cases event with
  | getClient call => exact hands_getClient h call
  | newClient call ok => exact hands_newClient call ok
  | connect _ | sendUdp _ | workerCloses _ | workerDropped _ | elapse _ => exact hands_of_clients rfl
  | clientCloses client => exact .none (remaining_modify client fun _ => ⟨rfl, rfl⟩)
  | post client => exact .none (remaining_modify client fun _ => ⟨rfl, rfl⟩)
  | downloadEnds client => exact .none (remaining_modify client fun _ => ⟨rfl, rfl⟩)
  | request call ok =>
    refine .none ?_
    rw [step]
    split
    · rfl
    · split
      · exact remaining_modify _ fun _ => ⟨rfl, rfl⟩
      · rfl
  | lookup call | transport call ok | manager call | finish call ok | abandon call =>
    refine hands_of_clients ?_
    simp only [step]
    repeat' split
    all_goals rfl

/-! ## Limits of the managers -/

/-- Each manager has the limits of the configurations with its key. -/
def Managed (unicode : Char → Bool) (managers : KeyMap XHttpH2XmuxManager) : Prop :=
  ∀ key m, managers.get key = some m →
    ∀ d : VlessConfig, d.xhttpH2XmuxKey unicode = key → m.config = d.transport.xmux

theorem Managed.insert {managers : KeyMap XHttpH2XmuxManager} (h : Managed unicode managers)
    {key : List Char} {m : XHttpH2XmuxManager}
    (hm : ∀ d : VlessConfig, d.xhttpH2XmuxKey unicode = key → m.config = d.transport.xmux) :
    Managed unicode (managers.insert key m) := by
  intro other found hfound d hd
  rw [KeyMap.get_insert] at hfound
  split at hfound
  case isTrue heq =>
    cases Option.some.inj hfound
    exact hm d (hd.trans heq.symm)
  case isFalse => exact h other found hfound d hd

/-- A manager is changed, but for its configuration. -/
theorem Managed.keep {managers : KeyMap XHttpH2XmuxManager} (h : Managed unicode managers)
    {key : List Char} {m m' : XHttpH2XmuxManager} (hm : managers.get key = some m)
    (hconfig : m'.config = m.config) : Managed unicode (managers.insert key m') :=
  h.insert fun d hd => hconfig.trans (h key m hm d hd)

theorem Managed.manager (h : Managed unicode s.managers) (call : Nat) :
    Managed unicode (s.step unicode (.manager call)).1.managers := by
  rw [step]
  split
  case h_1 => exact h
  case h_2 c hc =>
    split
    case isFalse => exact h
    case isTrue =>
      refine h.insert fun d hd => ?_
      cases hm : s.managers.get (c.config.xhttpH2XmuxKey unicode) with
      | none => exact VlessConfig.xhttpH2XmuxKey_xmux hd.symm
      | some m => exact h _ m hm d hd

theorem Managed.getClient (h : Managed unicode s.managers) (call : Nat) :
    Managed unicode (s.step unicode (.getClient call)).1.managers := by
  have hdoes := getClient_does unicode s call
  generalize s.step unicode (.getClient call) = r at hdoes ⊢
  cases hdoes with
  | waits => exact h
  | connects hc hm => exact h.keep (Option.filter_eq_some_iff.mp hm).1 rfl
  | reuses hc hm hclient hbelow => exact h.keep (Option.filter_eq_some_iff.mp hm).1 rfl

theorem Managed.newClient (h : Managed unicode s.managers) (call : Nat) (ok : Bool) :
    Managed unicode (s.step unicode (.newClient call ok)).1.managers := by
  have hdoes := newClient_does unicode s call ok
  generalize s.step unicode (.newClient call ok) = r at hdoes ⊢
  cases hdoes with
  | waits => exact h
  | fails hc hm => exact h.keep hm rfl
  | opens hc hm => exact h.keep hm rfl

theorem Managed.abandon (h : Managed unicode s.managers) (call : Nat) :
    Managed unicode (s.step unicode (.abandon call)).1.managers := by
  rw [step]
  split
  case h_1 => exact h
  case h_2 c hcall =>
    split
    · exact h
    · dsimp only
      split
      · exact h
      case h_2 m hm => exact h.keep hm rfl
    · exact h

theorem Managed.step (h : Managed unicode s.managers) (event : PoolsEvent) :
    Managed unicode (s.step unicode event).1.managers := by
  cases event with
  | manager call => exact h.manager call
  | getClient call => exact h.getClient call
  | newClient call ok => exact h.newClient call ok
  | abandon call => exact h.abandon call
  | connect _ | sendUdp _ | workerCloses _ | workerDropped _ | clientCloses _ | post _
  | downloadEnds _ | elapse _ => exact h
  | lookup call | transport call ok | request call ok | finish call ok =>
    simp only [VlessPools.step]
    repeat' split
    all_goals exact h

/-! ## Uses and remaining uses -/

/-- The uses that a client has had and those that are left make up its limit, and what came
to a call is a client that was opened under the key. -/
structure Reuse (unicode : Char → Bool) (s : VlessPools) (log : List XmuxHandout) : Prop where
  left : ∀ n c, s.clients[n]? = some c → 0 < c.config.transport.xmux.cMaxReuseTimes →
    0 ≤ c.leftUsage.toInt ∧ (timesHandedOut log n : Int) + c.leftUsage.toInt =
      c.config.transport.xmux.cMaxReuseTimes.toInt
  handouts : ∀ h ∈ log, ∃ d, s.clientConfigs[h.client]? = some d ∧
    d.xhttpH2XmuxKey unicode = h.key ∧ h.Chosen d.transport.xmux.cMaxReuseTimes

variable {log : List XmuxHandout}

theorem new_reuse : new.Reuse unicode [] :=
  ⟨fun _ _ h => absurd h (by simp [new]), fun _ h => absurd h List.not_mem_nil⟩

theorem timesHandedOut_concat (log : List XmuxHandout) (h : XmuxHandout) (n : Nat) :
    timesHandedOut (log ++ [h]) n = timesHandedOut log n + if h.client = n then 1 else 0 := by
  rw [timesHandedOut, List.countP_append, List.countP_singleton]
  simp [timesHandedOut]

theorem Reuse.same (h : s.Reuse unicode log) (heq : s'.remaining = s.remaining) :
    s'.Reuse unicode log := by
  have hconfigs (s : VlessPools) : s.clientConfigs = s.remaining.map Prod.snd := by
    simp [clientConfigs, remaining, Function.comp_def]
  constructor
  · intro n c' hc' hpos
    have hn := congrArg (·[n]?) heq
    simp only [remaining, List.getElem?_map, hc', Option.map_some] at hn
    obtain ⟨c,hc,hsame⟩ := Option.map_eq_some_iff.mp hn.symm
    obtain ⟨hleft,hconfig⟩ := Prod.mk.inj hsame
    rw [← hleft, ← hconfig]
    exact h.left n c hc (hconfig ▸ hpos)
  · rw [hconfigs, heq, ← hconfigs]
    exact h.handouts

theorem Reuse.again (h : s.Reuse unicode log) {client : Nat} {c : XHttpH2XmuxClient}
    (hc : s.clients[client]? = some c) (husable : c.isUsable s.now = true)
    (heq : s'.clients = s.clients.modify client .consumeConnectionReuse) :
    s'.Reuse unicode (log ++ [⟨c.config.xhttpH2XmuxKey unicode, client, true, true⟩]) := by
  have hkept (c : XHttpH2XmuxClient) : c.consumeConnectionReuse.config = c.config := by
    rw [XHttpH2XmuxClient.consumeConnectionReuse]
    split <;> rfl
  have hconfigs : s'.clientConfigs = s.clientConfigs := by
    rw [clientConfigs, heq]
    exact map_modify hkept _ _
  constructor
  · intro n c' hc' hpos
    rw [heq, List.getElem?_modify] at hc'
    obtain ⟨d,hd,hd'⟩ := Option.map_eq_some_iff.mp hc'
    rw [timesHandedOut_concat]
    dsimp only at hd' ⊢
    split at hd'
    case isFalse hne =>
      subst hd'
      rw [if_neg hne]
      exact h.left n d hd hpos
    case isTrue hn =>
      subst hn hd'
      cases Option.some.inj (hc.symm.trans hd)
      rw [hkept] at hpos ⊢
      obtain ⟨hnonneg,hsum⟩ := h.left _ c hc hpos
      have hne : c.leftUsage ≠ 0 := by
        intro hzero
        simp [XHttpH2XmuxClient.isUsable, hzero] at husable
      have hleft : 0 < c.leftUsage.toInt :=
        lt_of_le_of_ne hnonneg fun hzero => hne (Int32.toInt_inj.mp hzero.symm)
      have hgive : 0 < c.leftUsage := Int32.lt_iff_toInt_lt.mpr (Int32.toInt_zero ▸ hleft)
      have hone : (c.leftUsage - 1).toInt = (c.leftUsage.toInt.toNat - 1 : Nat) :=
        toInt_sub_one (by omega)
      rw [XHttpH2XmuxClient.consumeConnectionReuse, if_pos hgive, if_pos rfl, hone]
      omega
  · intro handout hmem
    rw [hconfigs]
    cases List.mem_append.mp hmem with
    | inl hold => exact h.handouts handout hold
    | inr hnew =>
      cases List.mem_singleton.mp hnew
      refine ⟨c.config, ?_, rfl, by simp [XmuxHandout.Chosen]⟩
      rw [clientConfigs, List.getElem?_map, hc, Option.map_some]

theorem Reuse.born (h : s.Reuse unicode log) {handout : XmuxHandout} (hmem : handout ∈ log) :
    handout.client < s.clients.length := by
  obtain ⟨d,hd,-⟩ := h.handouts handout hmem
  exact (List.getElem?_eq_some_iff.mp hd).1.trans_eq (List.length_map ..)

/-- A new client has one use fewer left than it may have, for the call that opens it. -/
theorem new_leftUsage (config : VlessConfig) (now : Nat)
    (hpos : 0 < config.transport.xmux.cMaxReuseTimes) :
    0 ≤ (XHttpH2XmuxClient.new config now).leftUsage.toInt ∧
      1 + (XHttpH2XmuxClient.new config now).leftUsage.toInt =
        config.transport.xmux.cMaxReuseTimes.toInt := by
  have hlt := Int32.lt_iff_toInt_lt.mp hpos
  rw [Int32.toInt_zero] at hlt
  have hone : (config.transport.xmux.cMaxReuseTimes - 1).toInt =
      (config.transport.xmux.cMaxReuseTimes.toInt.toNat - 1 : Nat) := toInt_sub_one (by omega)
  rw [XHttpH2XmuxClient.new]
  dsimp only
  rw [if_pos hpos, hone]
  omega

theorem Reuse.first (h : s.Reuse unicode log) (config : VlessConfig)
    (heq : s'.clients = s.clients ++ [.new config s.now]) :
    s'.Reuse unicode (log ++ [⟨config.xhttpH2XmuxKey unicode, s.clients.length, false,
      (XHttpH2XmuxClient.new config s.now).isUsable s.now⟩]) := by
  have hconfigs : s'.clientConfigs = s.clientConfigs ++ [config] := by
    rw [clientConfigs, heq, List.map_append]
    rfl
  constructor
  · intro n c hc hpos
    rw [heq] at hc
    rw [timesHandedOut_concat]
    by_cases hn : n < s.clients.length
    · rw [List.getElem?_append_left hn] at hc
      rw [if_neg (Nat.ne_of_gt hn)]
      exact h.left n c hc hpos
    · have hlast : n = s.clients.length := by
        have hlt := (List.getElem?_eq_some_iff.mp hc).1
        rw [List.length_append, List.length_singleton] at hlt
        omega
      subst hlast
      cases Option.some.inj (List.getElem?_concat_length.symm.trans hc)
      have hnone : timesHandedOut log s.clients.length = 0 := by
        rw [timesHandedOut, List.countP_eq_zero]
        intro handout hmem hclient
        exact absurd (h.born hmem) (Nat.not_lt.mpr (Nat.le_of_eq (of_decide_eq_true hclient).symm))
      rw [hnone, if_pos rfl]
      exact new_leftUsage config s.now hpos
  · intro handout hmem
    rw [hconfigs]
    cases List.mem_append.mp hmem with
    | inl hold =>
      obtain ⟨d,hd,hrest⟩ := h.handouts handout hold
      exact ⟨d, (List.getElem?_append_left (List.getElem?_eq_some_iff.mp hd).1).trans hd, hrest⟩
    | inr hnew =>
      cases List.mem_singleton.mp hnew
      refine ⟨config, ?_, rfl, ?_⟩
      · have hlen : s.clientConfigs.length = s.clients.length := List.length_map ..
        rw [← hlen]
        exact List.getElem?_concat_length
      · simp [XmuxHandout.Chosen, new_isUsable_iff]

theorem Reuse.hands (h : s.Reuse unicode log) {handout : Option XmuxHandout}
    (hhands : Hands unicode s s' handout) : s'.Reuse unicode (log ++ handout.toList) := by
  cases hhands with
  | none heq =>
    rw [Option.toList_none, List.append_nil]
    exact h.same heq
  | again hc husable heq => exact h.again hc husable heq
  | first config heq => exact h.first config heq

/-! ## Runs -/

/-- What every run keeps of the pools, with the handouts so far. -/
structure Counted (unicode : Char → Bool) (s : VlessPools) (log : List XmuxHandout) : Prop where
  pools : s.Inv unicode (fun _ => True) fun _ => True
  managed : Managed unicode s.managers
  reuse : s.Reuse unicode log

theorem Counted.step (h : s.Counted unicode log) (event : PoolsEvent) :
    (s.handoutStep unicode event).1.Counted unicode (log ++ (s.handoutStep unicode event).2) :=
  ⟨h.pools.step event (fun _ _ => trivial) fun _ _ => trivial, h.managed.step event,
    h.reuse.hands (hands_step h.pools event)⟩

theorem run_counted (unicode : Char → Bool) (events : List PoolsEvent) :
    (run (handoutStep unicode) new events).1.Counted unicode
      (run (handoutStep unicode) new events).2 := by
  have hnew : new.Counted unicode [] :=
    ⟨new_inv, fun _ _ h => absurd h (by simp [new, KeyMap.get]), new_reuse⟩
  exact @run_invariant _ _ _ (handoutStep unicode) (fun _ _ => True) (Counted unicode)
    (fun _ _ event h _ => h.step event) new [] hnew events
    (meets_of_forall (fun _ _ _ => trivial) _)

end VlessPools

/-- Under a key, no client came to more calls than the limit says. One that came to a call again
was usable then, and a new one was unless that is its only use. -/
structure ReuseBounded (log : List XmuxHandout) (key : List Char) (limit : Int32) : Prop where
  times : ∀ h ∈ log, h.key = key → (timesHandedOut log h.client : Int) ≤ limit.toInt
  chosen : ∀ h ∈ log, h.key = key → (h.usable = true ↔ h.reused = true ∨ limit ≠ 1)

/-- In every run the clients are handed out within the limit of their manager, if it has one. -/
theorem xmux_reuse_bounded (unicode : Char → Bool) (events : List PoolsEvent) {key : List Char}
    {m : XHttpH2XmuxManager}
    (hm : (run (VlessPools.handoutStep unicode) .new events).1.managers.get key = some m)
    (hpos : 0 < m.config.cMaxReuseTimes) :
    ReuseBounded (run (VlessPools.handoutStep unicode) .new events).2 key
      m.config.cMaxReuseTimes := by
  have hcounted := VlessPools.run_counted unicode events
  constructor
  · intro h hmem hkey
    obtain ⟨d,hd,hdkey,-⟩ := hcounted.reuse.handouts h hmem
    have hconfig := hcounted.managed key m hm d (hdkey.trans hkey)
    obtain ⟨c,hc,rfl⟩ := Option.map_eq_some_iff.mp ((List.getElem?_map ..).symm.trans hd)
    rw [hconfig] at hpos ⊢
    obtain ⟨hnonneg,hsum⟩ := hcounted.reuse.left h.client c hc hpos
    omega
  · intro h hmem hkey
    obtain ⟨d,-,hdkey,hchosen⟩ := hcounted.reuse.handouts h hmem
    rw [hcounted.managed key m hm d (hdkey.trans hkey)]
    exact hchosen

/-- XHTTP over TLS, with clients for so many calls each. -/
def reuseConfig (times : Int32) : VlessConfig :=
  { tlsConfig "a.example" 1 .xHttp false with
    transport := { (tlsConfig "a.example" 1 .xHttp false).transport with
      xmux := ⟨0, 0, times, 0, 0⟩ } }

/-- A client is opened for the first call and reused for the second, and the third call opens
another one. -/
def usedTwice : List PoolsEvent :=
  [.connect (reuseConfig 2), .manager 0, .getClient 0, .newClient 0 true, .request 0 true,
    .connect (reuseConfig 2), .manager 1, .getClient 1, .request 1 true, .downloadEnds 0,
    .connect (reuseConfig 2), .manager 2, .getClient 2, .newClient 2 true]

theorem xmux_reuse_bounded_twice :
    ReuseBounded (run (VlessPools.handoutStep fun _ => false) .new usedTwice).2
      ((reuseConfig 2).xhttpH2XmuxKey fun _ => false) 2 :=
  @xmux_reuse_bounded (fun _ => false) usedTwice _ ⟨⟨0, 0, 2, 0, 0⟩, [1], none⟩
    (by decide +kernel) (by decide)

def usedOnce : List PoolsEvent :=
  [.connect (reuseConfig 1), .manager 0, .getClient 0, .newClient 0 true]

/-- A client for one call has no use left as it comes to that call. -/
theorem single_use_not_usable :
    ¬ ∀ key m, (run (VlessPools.handoutStep fun _ => false) .new usedOnce).1.managers.get key =
        some m → 0 < m.config.cMaxReuseTimes →
      ∀ h ∈ (run (VlessPools.handoutStep fun _ => false) .new usedOnce).2, h.key = key →
        (timesHandedOut (run (VlessPools.handoutStep fun _ => false) .new usedOnce).2 h.client :
          Int) ≤ m.config.cMaxReuseTimes.toInt ∧ h.usable = true := by
  intro h
  have hbound := h ((reuseConfig 1).xhttpH2XmuxKey fun _ => false) ⟨⟨0, 0, 1, 0, 0⟩, [0], none⟩
    (by decide +kernel) (by decide)
    ⟨(reuseConfig 1).xhttpH2XmuxKey fun _ => false, 0, false, false⟩ (by decide +kernel) rfl
  exact absurd hbound.2 (by decide)

end AtlasKernel.Vless
